import Bundling.Json

/-!
# Writing JSON

Compact text: no blanks, members in the order they are held. Inside strings only the quote, the
backslash and control characters are escaped.
-/

namespace Bundling.Json

/-- One hexadecimal digit, in lower case. -/
def hexDigit (n : Nat) : Char := (Nat.toDigits 16 n).headD '0'

/-- How a character stands inside a string. -/
def escapeChar (c : Char) : List Char :=
  if c = '"' then ['\\', '"']
  else if c = '\\' then ['\\', '\\']
  else if c = '\n' then ['\\', 'n']
  else if c = '\r' then ['\\', 'r']
  else if c = '\t' then ['\\', 't']
  else if c.toNat = 8 then ['\\', 'b']
  else if c.toNat = 12 then ['\\', 'f']
  else if c.toNat < 32 then ['\\', 'u', '0', '0', hexDigit (c.toNat / 16), hexDigit (c.toNat % 16)]
  else [c]

/-- A string with its quotes. -/
def quote (s : String) : String :=
  if s.any fun c => c == '"' || c == '\\' || c.toNat < 32 then
    "\"" ++ String.ofList (s.toList.flatMap escapeChar) ++ "\""
  else "\"" ++ s ++ "\""

def Number.text : Number → String
  | .int i => toString i
  | .float x => x.text
  | .beyond _ => "null"

mutual

/-- The compact text of a value. -/
def compact : Json → String
  | null => "null"
  | bool b => if b then "true" else "false"
  | number n => n.text
  | string s => quote s
  | array xs => "[" ++ ",".intercalate (compactItems xs) ++ "]"
  | object ms => "\x7b" ++ ",".intercalate (compactMembers ms) ++ "\x7d"

def compactItems : List Json → List String
  | [] => []
  | j :: js => compact j :: compactItems js

def compactMembers : List (String × Json) → List String
  | [] => []
  | (k, j) :: ms => (quote k ++ ":" ++ compact j) :: compactMembers ms

end

end Bundling.Json
