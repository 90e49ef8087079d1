/-!
# Shell scripts

A small part of the language of shells: words with quotes and parameters, redirections, and commands
in a row. A script is read character by character; parameters are put in while it is read.
-/

namespace Bundling.Shell

/-- What a script is called with. -/
structure Call where
  /-- The path of the script. -/
  script : String
  arguments : List String
  deriving DecidableEq

/-- When a command runs, seen from the one before it. -/
inductive Joint where
  | always
  | onSuccess
  | onFailure
  deriving DecidableEq

/-- Where a command writes to: `channel` is 1 for its output and 2 for its errors. -/
inductive Redirection where
  | toFile (channel : Nat) (append : Bool) (path : String)
  | toChannel (channel target : Nat)
  deriving DecidableEq

structure Command where
  line : Nat
  joint : Joint := .always
  words : List String := []
  redirections : List Redirection := []
  deriving DecidableEq

namespace Call

def isParameter (c : Char) : Bool := c.isDigit || ['#', '*', '@', '$'].contains c

/-- What a parameter stands for. The number of the process is left as it is written. -/
def parameter (call : Call) (c : Char) : List Char :=
  if c = '#' then (toString call.arguments.length).toList
  else if c = '*' || c = '@' then (" ".intercalate call.arguments).toList
  else if c = '$' then ['$', '$']
  else if c = '0' then call.script.toList
  else ((call.arguments[c.toNat - '1'.toNat]?).getD "").toList

end Call

/-- What the next character of a script belongs to. -/
inductive Mode where
  | plain
  | escaped
  | parameter
  | single
  | double
  | doubleEscaped
  | doubleParameter
  | comment
  /-- After a sign for redirection. -/
  | redirecting (channel : Nat)
  | duplicating (channel : Nat)
  /-- After one of two signs that stand together. -/
  | half (sign : Char)
  deriving DecidableEq

/-- What has been read of a script. -/
structure Reading where
  mode : Mode := .plain
  line : Nat := 1
  /-- The word that is being read, its last character first. -/
  word : Option (List Char) := none
  /-- The redirection whose file is to come. -/
  target : Option (Nat × Bool) := none
  current : Command := { line := 1 }
  commands : List Command := []

namespace Reading

def add (r : Reading) (c : Char) : Reading := { r with word := some (c :: r.word.getD []) }

/-- Ends the word, if there is one. -/
def endWord (r : Reading) : Reading :=
  match r.word with
  | none => r
  | some cs =>
    let text := String.ofList cs.reverse
    let current := match r.target with
      | some (channel, append) => { r.current with
        redirections := r.current.redirections ++ [.toFile channel append text] }
      | none => { r.current with words := r.current.words ++ [text] }
    { r with word := none, target := none, current := current }

/-- Ends the command; `joint` is for the next one. -/
def endCommand (r : Reading) (joint : Joint) (line : Nat) : Reading :=
  let r := r.endWord
  { r with
    mode := .plain
    line := line
    target := none
    current := { line := line, joint := joint }
    commands := r.commands ++ [r.current] }

/-- Adds characters that may be the ends of words. -/
def addSplit (r : Reading) (cs : List Char) : Reading :=
  cs.foldl (fun r c => if c = ' ' || c = '\t' || c = '\n' then r.endWord else r.add c) r

/-- A sign for redirection; a channel may stand before it. -/
def redirect (r : Reading) : Reading :=
  match r.word with
  | some ['2'] => { r with word := none, mode := .redirecting 2 }
  | some ['1'] => { r with word := none, mode := .redirecting 1 }
  | _ => { r.endWord with mode := .redirecting 1 }

/-- A character outside quotes. -/
def plain (r : Reading) (c : Char) : Reading :=
  let r := { r with mode := .plain }
  if c = '\n' then r.endCommand .always (r.line + 1)
  else if c = ';' then r.endCommand .always r.line
  else if c = ' ' || c = '\t' then r.endWord
  else if c = '&' || c = '|' then { r with mode := .half c }
  else if c = '\\' then { r with mode := .escaped }
  else if c = '$' then { r with mode := .parameter }
  else if c = '\'' then { r with mode := .single, word := some (r.word.getD []) }
  else if c = '"' then { r with mode := .double, word := some (r.word.getD []) }
  else if c = '>' then r.redirect
  else if c = '#' && r.word.isNone then { r with mode := .comment }
  else r.add c

/-- A character between double quotes. -/
def double (r : Reading) (c : Char) : Reading :=
  let r := { r with mode := .double, line := if c = '\n' then r.line + 1 else r.line }
  if c = '"' then { r with mode := .plain }
  else if c = '\\' then { r with mode := .doubleEscaped }
  else if c = '$' then { r with mode := .doubleParameter }
  else r.add c

/-- Reads one more character. -/
def step (call : Call) (r : Reading) (c : Char) : Reading :=
  match r.mode with
  | .plain => r.plain c
  | .escaped =>
    let r := { r with mode := .plain }
    if c = '\n' then { r with line := r.line + 1 } else r.add c
  | .parameter =>
    if Call.isParameter c then { r with mode := .plain }.addSplit (call.parameter c)
    else (r.add '$').plain c
  | .single =>
    if c = '\'' then { r with mode := .plain }
    else { r with line := if c = '\n' then r.line + 1 else r.line }.add c
  | .double => r.double c
  | .doubleEscaped =>
    let r := { r with mode := .double }
    if c = '$' || c = '"' || c = '\\' || c = '\x60' then r.add c else (r.add '\\').add c
  | .doubleParameter =>
    let r := { r with mode := .double }
    if Call.isParameter c then (call.parameter c).foldl add r else (r.add '$').double c
  | .comment => if c = '\n' then r.plain c else r
  | .redirecting channel =>
    if c = '>' then { r with mode := .plain, target := some (channel, true) }
    else if c = '&' then { r with mode := .duplicating channel }
    else { r with target := some (channel, false) }.plain c
  | .duplicating channel =>
    let way := Redirection.toChannel channel (c.toNat - '0'.toNat)
    { r with
      mode := .plain
      current := { r.current with redirections := r.current.redirections ++ [way] } }
  | .half sign =>
    if c = sign then r.endCommand (if sign = '&' then .onSuccess else .onFailure) r.line
    else r.plain c

end Reading

/-- The commands of a script. -/
def Call.commands (call : Call) (text : List Char) : List Command :=
  ((text.foldl (Reading.step call) {}).endCommand .always 0).commands

end Bundling.Shell
