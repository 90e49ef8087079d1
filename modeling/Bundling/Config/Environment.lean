import Bundling.Text.Blank
import Bundling.Toml.Reader

/-!
# Configuration from the environment

A variable whose name starts with a prefix, in whatever case, sets the option that the rest of its name
leads to: in small letters, with a double underscore between a group and what is in it. Its value may be
written like a number, a truth value, a quoted string, a list or a table; all else is plain text.
-/

namespace Bundling.Environment

/-- What ends a plain value. -/
def isSeparator (c : Char) : Bool := c == ',' || c == '{' || c == '}' || c == '[' || c == ']'

/-- White space within ASCII. -/
def isGap (c : Char) : Bool := c == ' ' || c == '\t' || c == '\n' || c == '\r' || c.toNat == 12

def skipGap (cs : List Char) : List Char := cs.dropWhile isGap

/-- A number with a point. -/
def decimal? (cs : List Char) : Option Json := do
  let (negative, body) := Toml.Reader.signed cs
  let isMark (c : Char) : Bool := c == 'e' || c == 'E'
  let (mantissa, exponent) := body.span fun c => !isMark c
  let (before, after) := mantissa.span (· != '.')
  let fraction := after.drop 1
  if before.isEmpty && fraction.isEmpty then none
  if !(before.all Char.isDigit && fraction.all Char.isDigit) then none
  let e ← match exponent with
    | _ :: e =>
      let (down, e) := Toml.Reader.signed e
      if e.isEmpty || !e.all Char.isDigit then none
      else
        let n : Int := Json.Reader.natOfDigits e
        some (if down then -n else n)
    | [] => some 0
  let digits := Json.Reader.natOfDigits (before ++ fraction)
  match Json.Double.ofDecimal? negative digits (e - fraction.length) with
  | some x => some (.number (.float x))
  | none => some (Toml.Reader.infinite negative)

/-- A whole number that fits into 64 bits, without a sign or with one. -/
def whole? (cs : List Char) : Option Json :=
  let (negative, ds) := Toml.Reader.signed cs
  if ds.isEmpty || !ds.all Char.isDigit then none
  else
    let n : Int := Json.Reader.natOfDigits ds
    if negative then if n ≤ Nat.pow 2 63 then some (.number (.int (-n))) else none
    else if n < Nat.pow 2 64 then some (.number (.int n)) else none

/-- What plain text stands for. -/
def plain (cs : List Char) : Json :=
  let cs := Text.trim cs
  let number := (if cs.contains '.' then decimal? cs else none) <|> whole? cs
  number.getD (.string (String.ofList cs))

/-- What follows a text at the front. -/
def after? (front cs : List Char) : Option (List Char) :=
  if front.isPrefixOf cs then some (cs.drop front.length) else none

def key? (cs : List Char) : Option (String × List Char) :=
  match cs with
  | '"' :: rest => Toml.Reader.basic cs.length [] rest
  | _ =>
    let name := cs.takeWhile Toml.Reader.isBare
    if name.isEmpty then none else some (String.ofList name, cs.drop name.length)

mutual

def value : (fuel : Nat) → List Char → Option (Json × List Char)
  | 0, _ => none
  | fuel + 1, cs =>
    match after? "true".toList cs, after? "false".toList cs with
    | some rest, _ => some (.bool true, rest)
    | _, some rest => some (.bool false, rest)
    | none, none =>
      match cs with
      | '{' :: rest => members fuel [] rest
      | '[' :: rest => items fuel [] rest
      | '"' :: rest => (Toml.Reader.basic cs.length [] rest).map fun (s, rest) => (.string s, rest)
      | '\'' :: c :: '\'' :: rest => some (.string (String.ofList [c]), rest)
      | '\'' :: _ => none
      | _ =>
        let text := cs.takeWhile fun c => !isSeparator c
        some (plain text, cs.drop text.length)

def items : (fuel : Nat) → (acc : List Json) → List Char → Option (Json × List Char)
  | 0, _, _ => none
  | _ + 1, acc, ']' :: rest => some (.array acc.reverse, rest)
  | fuel + 1, acc, cs => do
    let (j, rest) ← value fuel (skipGap cs)
    match skipGap rest with
    | ',' :: rest => items fuel (j :: acc) rest
    | ']' :: rest => some (.array (j :: acc).reverse, rest)
    | _ => none

def members : (fuel : Nat) → (acc : List (String × Json)) → List Char → Option (Json × List Char)
  | 0, _, _ => none
  | _ + 1, acc, '}' :: rest => some (.object acc.reverse, rest)
  | fuel + 1, acc, cs => do
    let (key, rest) ← key? (skipGap cs)
    match skipGap rest with
    | '=' :: rest =>
      let (j, rest) ← value fuel (skipGap rest)
      match skipGap rest with
      | ',' :: rest => members fuel ((key, j) :: acc) rest
      | '}' :: rest => some (.object ((key, j) :: acc).reverse, rest)
      | _ => none
    | _ => none

end

/-- What the value of a variable stands for. -/
def valueOf (text : String) : Json :=
  let cs := Text.trim text.toList
  match value (cs.length + 2) cs with
  | some (j, []) => j
  | _ => .string (String.ofList cs)

/-- The pieces of a name between double underscores or points. -/
def steps : (acc : List Char) → List Char → List String
  | acc, '_' :: '_' :: rest => String.ofList acc.reverse :: steps [] rest
  | acc, '.' :: rest => String.ofList acc.reverse :: steps [] rest
  | acc, c :: rest => steps (c.toLower :: acc) rest
  | acc, [] => [String.ofList acc.reverse]

/-- The option that a variable leads to; none if it is not one of ours. -/
def option? (start name : String) : Option (List String) :=
  let small (s : String) : List Char := s.toList.map Char.toLower
  match after? (small start) (small name) with
  | some rest =>
    let path := steps [] rest
    if path.any String.isEmpty then none else some path
  | none => none

/-- A value under some keys. -/
def nested (j : Json) : List String → Json
  | [] => j
  | key :: keys => .object [(key, nested j keys)]

/-- What the variables set, one after the other. -/
def settings (start : String) (environment : List (String × String)) : List Json :=
  environment.filterMap fun (name, text) => (option? start name).map (nested (valueOf text))

end Bundling.Environment
