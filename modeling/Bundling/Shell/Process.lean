import Bundling.Resolve.Command
import Bundling.Shell.Command
import Bundling.Store.Disk

/-!
# Running commands

What commands do to a disk: the built-in ones of a shell that scripts for installing packages need, and
scripts that are run as files.
-/

namespace Bundling.Shell

/-- What is written to. -/
inductive Sink where
  | nothing
  | errors
  | file (place : Place)
  deriving DecidableEq

/-- A script on its way. -/
structure Process where
  disk : Disk
  dir : Path
  /-- What was written to the error channel. -/
  errors : List UInt8 := []
  status : Nat := 0
  /-- How it ended, once it has. -/
  ending : Option Install.Ending := none

/-- The octal digits at the front of a text, `limit` at most. -/
def octalDigits : (limit : Nat) → List Char → List Nat
  | limit + 1, c :: cs =>
    if '0' ≤ c && c ≤ '7' then (c.toNat - '0'.toNat) :: octalDigits limit cs else []
  | _, _ => []

/-- The octets of a text with escapes; `skip` characters have been read already. -/
def unescapeFrom : (skip : Nat) → List Char → List UInt8
  | _, [] => []
  | skip + 1, _ :: cs => unescapeFrom skip cs
  | 0, c :: cs =>
    if c = '\\' then
      match cs.head?, octalDigits 3 cs with
      | some 'n', _ => 10 :: unescapeFrom 1 cs
      | some 't', _ => 9 :: unescapeFrom 1 cs
      | some 'r', _ => 13 :: unescapeFrom 1 cs
      | some '\\', _ => 92 :: unescapeFrom 1 cs
      | _, [] => 92 :: unescapeFrom 0 cs
      | _, digits => (digits.foldl (fun n d => n * 8 + d) 0).toUInt8 :: unescapeFrom digits.length cs
    else Text.Utf8.encode (String.singleton c) ++ unescapeFrom 0 cs

/-- The octets of a text with escapes. -/
def unescape (text : String) : List UInt8 := unescapeFrom 0 text.toList

/-- A format with texts put in for `%s`. -/
def formatted : List Char → List String → List Char
  | '%' :: '%' :: cs, args => '%' :: formatted cs args
  | '%' :: 's' :: cs, args => (args.headD "").toList ++ formatted cs (args.drop 1)
  | c :: cs, args => c :: formatted cs args
  | [], _ => []

/-- The signal that an option of `kill` names. -/
def signalOf (option : String) : Nat :=
  let name := String.ofList (option.toList.drop 1)
  match name.toNat?, Install.Ending.signalNames.find? fun s => s.2 == "SIG" ++ name with
  | some n, _ => n
  | none, some (n, _) => n
  | none, none => 15

namespace Process

def put (p : Process) (sink : Sink) (bytes : List UInt8) : Process :=
  match sink with
  | .nothing => p
  | .errors => { p with errors := p.errors ++ bytes }
  | .file place =>
    match p.disk.node? place with
    | some (.file old executable) =>
      { p with disk := p.disk.setNode place (.file (old ++ bytes) executable) }
    | _ => p

/-- Changes the disk, or fails. -/
def change (p : Process) (f : Disk → Except DiskError Disk) : Process :=
  match f p.disk with
  | .ok disk => { p with disk := disk }
  | .error _ => { p with status := 1 }

/-- Makes a directory and the missing ones above it, or fails. -/
def makeDirAll (p : Process) (path : Path) : Process :=
  match p.disk.makeDirAll path with
  | (.ok (), disk) => { p with disk := disk }
  | (.error _, disk) => { p with disk := disk, status := 1 }

/-- Writes out what a file holds. -/
def copyOut (p : Process) (out err : Sink) (file : String) : Process :=
  match p.disk.readBytes (p.dir.join ⟨file⟩) with
  | .ok bytes => p.put out bytes
  | .error e =>
    let reason := Text.trimEnd (e.message.toList.takeWhile (· != '('))
    { p.put err (Text.Utf8.encode ("cat: " ++ file ++ ": " ++ String.ofList reason ++ "\n")) with
      status := 1 }

/-- Runs a command whose words are known. -/
def runWords (call : Call) (line : Nat) (p : Process) (out err : Sink) : List String → Process
  | [] | ":" :: _ | "true" :: _ | "sleep" :: _ => p
  | "false" :: _ => { p with status := 1 }
  | "echo" :: words => p.put out (unescape (" ".intercalate words) ++ [10])
  | "printf" :: words =>
    p.put out (unescape (String.ofList (formatted (words.headD "").toList (words.drop 1))))
  | "exit" :: words =>
    { p with ending := some (.exited (((words.head?.bind String.toNat?).getD p.status) % 256)) }
  | "kill" :: words =>
    { p with ending := some (.killed (if words.length < 2 then 15 else signalOf (words.headD ""))) }
  | "pwd" :: _ => p.put out (Text.Utf8.encode (p.dir.text ++ "\n"))
  | "cat" :: files => files.foldl (fun p f => p.copyOut out err f) p
  | "cd" :: dir :: _ =>
    let path := p.dir.join ⟨dir⟩
    if p.disk.isDir path then { p with dir := path.clean.toPath } else { p with status := 2 }
  | "mkdir" :: "-p" :: dirs => dirs.foldl (fun p d => p.makeDirAll (p.dir.join ⟨d⟩)) p
  | "mkdir" :: dirs => dirs.foldl (fun p d => p.change (·.makeDir (p.dir.join ⟨d⟩))) p
  | "ln" :: "-s" :: target :: name :: _ =>
    let path := p.dir.join ⟨name⟩
    let path := match p.disk.isDir path, Path.fileName? ⟨target⟩ with
      | true, some last => path.join (.ofOctets last)
      | _, _ => path
    p.change (·.makeLink path ⟨target⟩)
  | "touch" :: files =>
    files.foldl (fun p f =>
      let path := p.dir.join ⟨f⟩
      if p.disk.has path then p else p.change (·.writeBytes path [])) p
  | command :: _ =>
    let text := call.script ++ ": " ++ toString line ++ ": " ++ command ++ ": not found\n"
    { p.put err (Text.Utf8.encode text) with status := 127 }

/-- Opens a file to write to. A new file and one that is not appended to are empty. -/
def openFile (p : Process) (path : Path) (append : Bool) : Except DiskError (Place × Disk) := do
  let disk ← if append && p.disk.has path then pure p.disk else p.disk.writeBytes path []
  return (← disk.locate path, disk)

/-- Redirects the channels of a command, then runs it. -/
def redirected (call : Call) (c : Command) (p : Process) (out err : Sink) :
    List Redirection → Process
  | [] => runWords call c.line p out err c.words
  | .toFile channel append path :: rest =>
    match p.openFile (p.dir.join ⟨path⟩) append with
    | .ok (place, disk) =>
      let p := { p with disk := disk }
      if channel = 2 then redirected call c p out (.file place) rest
      else redirected call c p (.file place) err rest
    | .error _ =>
      let text := call.script ++ ": " ++ toString c.line ++ ": cannot create " ++ path ++
        ": Directory nonexistent\n"
      { p.put .errors (Text.Utf8.encode text) with status := 2 }
  | .toChannel 1 2 :: rest => redirected call c p err err rest
  | .toChannel 2 1 :: rest => redirected call c p out out rest
  | .toChannel _ _ :: rest => redirected call c p out err rest

/-- Whether a command is due. -/
def isDue (p : Process) (c : Command) : Bool :=
  p.ending.isNone && match c.joint with
    | .always => true
    | .onSuccess => p.status == 0
    | .onFailure => p.status != 0

/-- Runs a command, if it is due. -/
def runCommand (call : Call) (p : Process) (c : Command) : Process :=
  if !p.isDue c || (c.words.isEmpty && c.redirections.isEmpty) then p
  else if c.words.head? == some "exit" then redirected call c p .nothing .errors c.redirections
  else redirected call c { p with status := 0 } .nothing .errors c.redirections

end Process

/-- The programs that read scripts. -/
def interpreters : List String := ["/bin/sh", "/bin/bash", "/usr/bin/env"]

/-- Runs the script in a file. -/
def runFile (disk : Disk) (path dir : Path) (arguments : List String) :
    Except String Install.Completed × Disk :=
  match disk.find path with
  | .error e => (.error e.message, disk)
  | .ok (.file bytes true) =>
    match (Text.Utf8.lenient bytes).toList with
    | '#' :: '!' :: rest =>
      let name := ((rest.takeWhile (· != '\n')).dropWhile (· == ' ')).takeWhile (· != ' ')
      if interpreters.contains (String.ofList name) then
        let call : Call := ⟨path.text, arguments⟩
        let p := (call.commands ('#' :: '!' :: rest)).foldl (Process.runCommand call) { disk, dir }
        (.ok ⟨p.ending.getD (.exited p.status), p.errors⟩, p.disk)
      else (.error DiskError.notFound.message, disk)
    | _ => (.error "Exec format error (os error 8)", disk)
  | .ok _ => (.error "Permission denied (os error 13)", disk)

/-- Runs a command: a script by its path, or one of the few programs that are always there. -/
def run (disk : Disk) (command : String) (arguments : List String) (dir : Path) :
    Except String Install.Completed × Disk :=
  if (command :: dir.text :: arguments).any fun t => t.toList.contains '\x00' then
    (.error "nul byte found in provided data", disk)
  else if !disk.isDir dir then (.error DiskError.notFound.message, disk)
  else if command.toList.contains '/' then runFile disk (dir.join ⟨command⟩) dir arguments
  else if command = "true" then (.ok { ending := .exited 0 }, disk)
  else if command = "false" then (.ok { ending := .exited 1 }, disk)
  else (.error DiskError.notFound.message, disk)

/-- Commands on the disk that is a part of a larger state. -/
def runner {σ : Type} (view : σ → Disk) (update : Disk → σ → σ) : Install.Runner σ :=
  fun command arguments dir s =>
    let (r, disk) := run (view s) command arguments dir
    (r, update disk s)

end Bundling.Shell
