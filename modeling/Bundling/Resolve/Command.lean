import Bundling.Resolve.Install
import Bundling.Text.Blank
import Bundling.Text.Utf8

/-!
# Installing by a command

An installer that runs the command of a package manager in the root directory. Its error output is
only looked at when it fails.
-/

namespace Bundling.Install

variable {σ : Type}

/-- How a command has ended. -/
inductive Ending where
  | exited (status : Nat)
  | killed (signal : Nat)
  deriving DecidableEq

namespace Ending

/-- The names of signals, by their number. -/
def signalNames : List (Nat × String) := [
  (1, "SIGHUP"), (2, "SIGINT"), (3, "SIGQUIT"), (4, "SIGILL"), (5, "SIGTRAP"), (6, "SIGABRT"),
  (7, "SIGBUS"), (8, "SIGFPE"), (9, "SIGKILL"), (10, "SIGUSR1"), (11, "SIGSEGV"), (12, "SIGUSR2"),
  (13, "SIGPIPE"), (14, "SIGALRM"), (15, "SIGTERM")]

def text : Ending → String
  | exited status => "exit status: " ++ toString status
  | killed signal =>
    "signal: " ++ toString signal ++
      (match signalNames.lookup signal with
        | some name => " (" ++ name ++ ")"
        | none => "")

end Ending

/-- What is known of a command that has run. -/
structure Completed where
  ending : Ending
  errorOutput : List UInt8 := []
  deriving DecidableEq

/-- Runs a command with arguments in a directory; a text says why it could not be started. -/
abbrev Runner (σ : Type) :=
  (command : String) → (arguments : List String) → (dir : Path) → StateM σ (Except String Completed)

/-- What the command is given. -/
def arguments (package : String) (save : Bool) : List String :=
  ["install", package] ++ if save then ["--save"] else []

/-- The lines of a text. -/
def linesOf : List Char → List (List Char)
  | [] => [[]]
  | c :: cs =>
    if c = '\n' then [] :: linesOf cs
    else match linesOf cs with
      | [] => [[c]]
      | l :: ls => (c :: l) :: ls

/-- The last line that is not blank, without the blanks around it. -/
def lastLine? (text : String) : Option String :=
  ((linesOf text.toList).map Text.trim |>.filter (· != [])).getLast?.map String.ofList

/-- What a command that has run means for a package. -/
def judge (package : String) (c : Completed) : Except ResolveError Unit :=
  if c.ending = .exited 0 then .ok ()
  else
    let detail := match lastLine? (Text.Utf8.lenient c.errorOutput) with
      | some line => " (" ++ line ++ ")"
      | none => ""
    .error (.install package (c.ending.text ++ detail))

/-- The installer. Others go on while the command runs. -/
def byCommand (run : Runner σ) (command : String) : Installer σ := fun package save root done =>
  .step fun s =>
    match run command (arguments package save) root s with
    | (.ok c, s) => (.pause 1 (done (judge package c)), s)
    | (.error reason, s) =>
      (done (.error (.install package ("failed to spawn " ++ command ++ ": " ++ reason))), s)

end Bundling.Install
