import Bundling.Json.Reader
import Bundling.Toml.Document

/-!
# Reading TOML

A text as a document, and the document as a value. A date is an object with its text under a key
of its own. As with JSON, a step takes the characters that are left and gives what it has read together
with what follows.
-/

namespace Bundling.Toml.Reader

/-- Blanks within a line. -/
def isSpace (c : Char) : Bool := c == ' ' || c == '\t'

def skipSpace (cs : List Char) : List Char := cs.dropWhile isSpace

/-- Characters that stand in no comment and no string. -/
def isControl (c : Char) : Bool := (c.toNat < 32 && c != '\t') || c.toNat == 127

/-- What follows a line end. -/
def newline? : List Char → Option (List Char)
  | '\n' :: rest => some rest
  | '\r' :: '\n' :: rest => some rest
  | _ => none

/-- What follows a comment, if there is one. -/
def comment : List Char → List Char
  | '#' :: rest => rest.dropWhile fun c => !isControl c
  | cs => cs

/-- Blanks, comments and line ends. -/
def skipLines : (fuel : Nat) → List Char → List Char
  | 0, cs => cs
  | fuel + 1, cs =>
    let cs := comment (skipSpace cs)
    match newline? cs with
    | some rest => skipLines fuel rest
    | none => cs

def skipAll (cs : List Char) : List Char := skipLines cs.length cs

/-- The end of a line, with blanks and a comment before it. -/
def lineEnd? (cs : List Char) : Option (List Char) :=
  match comment (skipSpace cs) with
  | [] => some []
  | cs => newline? cs

/-! ## Strings -/

/-- A character by so many hexadecimal digits. -/
def unicode? (digits : Nat) (cs : List Char) : Option (Char × List Char) := do
  let ds ← (cs.take digits).mapM Json.Reader.hexValue?
  let n := ds.foldl (fun n d => n * 16 + d) 0
  if ds.length = digits ∧ n.isValidChar then some (Char.ofNat n, cs.drop digits) else none

/-- An escape after its backslash. -/
def escape? : List Char → Option (Char × List Char)
  | 'b' :: rest => some (Char.ofNat 8, rest)
  | 't' :: rest => some ('\t', rest)
  | 'n' :: rest => some ('\n', rest)
  | 'f' :: rest => some (Char.ofNat 12, rest)
  | 'r' :: rest => some ('\r', rest)
  | '"' :: rest => some ('"', rest)
  | '\\' :: rest => some ('\\', rest)
  | 'u' :: rest => unicode? 4 rest
  | 'U' :: rest => unicode? 8 rest
  | _ => none

/-- The rest of a string after its opening quote; `acc` holds what is read, last first. -/
def basic : (fuel : Nat) → (acc : List Char) → List Char → Option (String × List Char)
  | fuel + 1, acc, c :: rest =>
    if c = '"' then some (String.ofList acc.reverse, rest)
    else if c = '\\' then
      match escape? rest with
      | some (d, rest) => basic fuel (d :: acc) rest
      | none => none
    else if isControl c then none
    else basic fuel (c :: acc) rest
  | _, _, _ => none

/-- The rest of a literal string after its opening quote. -/
def literal (cs : List Char) : Option (String × List Char) :=
  let body := cs.takeWhile fun c => c != '\'' && !isControl c
  match cs.drop body.length with
  | '\'' :: rest => some (String.ofList body, rest)
  | _ => none

/-- What follows a backslash at the end of a line: all blanks and line ends are left out. -/
def continued? (cs : List Char) : Option (List Char) :=
  match newline? (skipSpace cs) with
  | some rest => some (rest.dropWhile fun c => isSpace c || c == '\n' || c == '\r')
  | none => none

/-- The rest of a string of several lines. Up to two quotes may stand directly before its end. -/
def multiline (quote : Char) (escapes : Bool) :
    (fuel : Nat) → (acc : List Char) → List Char → Option (String × List Char)
  | 0, _, _ => none
  | fuel + 1, acc, cs =>
    let quotes := (cs.takeWhile (· == quote)).length
    if 3 ≤ quotes then
      let extra := min (quotes - 3) 2
      some (String.ofList (acc.reverse ++ List.replicate extra quote), cs.drop (extra + 3))
    else match newline? cs with
      | some rest => multiline quote escapes fuel ('\n' :: acc) rest
      | none =>
        match cs with
        | [] => none
        | c :: rest =>
          if escapes ∧ c = '\\' then
            match continued? rest with
            | some rest => multiline quote escapes fuel acc rest
            | none =>
              match escape? rest with
              | some (d, rest) => multiline quote escapes fuel (d :: acc) rest
              | none => none
          else if isControl c then none
          else multiline quote escapes fuel (c :: acc) rest

/-- A string of any kind; what does not start with a quote is none. -/
def text? (cs : List Char) : Option (String × List Char) :=
  let body (rest : List Char) : List Char := (newline? rest).getD rest
  match cs with
  | '"' :: '"' :: '"' :: rest => multiline '"' true cs.length [] (body rest)
  | '\'' :: '\'' :: '\'' :: rest => multiline '\'' false cs.length [] (body rest)
  | '"' :: rest => basic cs.length [] rest
  | '\'' :: rest => literal rest
  | _ => none

/-! ## Keys -/

def isBare (c : Char) : Bool := c.isAlphanum || c == '_' || c == '-'

def key? (cs : List Char) : Option (String × List Char) :=
  match cs with
  | '"' :: rest => basic cs.length [] rest
  | '\'' :: rest => literal rest
  | _ =>
    let name := cs.takeWhile isBare
    if name.isEmpty then none else some (String.ofList name, cs.drop name.length)

/-- Keys between dots. -/
def keys? : (fuel : Nat) → List Char → Option (List String × List Char)
  | 0, _ => none
  | fuel + 1, cs => do
    let (k, rest) ← key? (skipSpace cs)
    match skipSpace rest with
    | '.' :: rest =>
      let (ks, rest) ← keys? fuel rest
      some (k :: ks, rest)
    | rest => some ([k], rest)

/-- The way to the table of a key, and the key in it. -/
def path? (cs : List Char) : Option (List String × String × List Char) := do
  let (ks, rest) ← keys? (cs.length + 1) cs
  some (ks.dropLast, ← ks.getLast?, rest)

/-! ## Numbers and dates -/

/-- Digits with single underscores between them, without these. -/
def grouped? (isDigit : Char → Bool) : List Char → Option (List Char)
  | [] => none
  | [c] => if isDigit c then some [c] else none
  | c :: '_' :: rest => if isDigit c then (grouped? isDigit rest).map (c :: ·) else none
  | c :: rest => if isDigit c then (grouped? isDigit rest).map (c :: ·) else none

/-- A natural number in some base. -/
def natural? (base : Nat) (cs : List Char) : Option Nat := do
  let digit? (c : Char) : Option Nat := do
    let d ← Json.Reader.hexValue? c
    if d < base then some d else none
  let ds ← grouped? (fun c => (digit? c).isSome) cs
  some ((ds.filterMap digit?).foldl (fun n d => n * base + d) 0)

/-- Decimal digits without a leading zero. -/
def whole? (cs : List Char) : Option (List Char) := do
  let ds ← grouped? Char.isDigit cs
  if ds.head? = some '0' ∧ 1 < ds.length then none else some ds

/-- A number within 64 bits. -/
def within? (i : Int) : Option Json :=
  if -(Nat.pow 2 63 : Int) ≤ i ∧ i < Nat.pow 2 63 then some (.number (.int i)) else none

def signed (cs : List Char) : Bool × List Char :=
  match cs with
  | '-' :: rest => (true, rest)
  | '+' :: rest => (false, rest)
  | _ => (false, cs)

def integer? (cs : List Char) : Option Json :=
  match cs with
  | '0' :: 'x' :: rest => do within? (← natural? 16 rest)
  | '0' :: 'o' :: rest => do within? (← natural? 8 rest)
  | '0' :: 'b' :: rest => do within? (← natural? 2 rest)
  | _ => do
    let (negative, body) := signed cs
    let n : Int := Json.Reader.natOfDigits (← whole? body)
    within? (if negative then -n else n)

/-- An infinity. -/
def infinite (negative : Bool) : Json := .number (.beyond (if negative then "-inf" else "inf"))

/-- A number with a fraction, an exponent, or both, an infinity, or what is no number. -/
def float? (cs : List Char) : Option Json := do
  let (negative, body) := signed cs
  if body = ['i', 'n', 'f'] then some (infinite negative)
  else if body = ['n', 'a', 'n'] then some (.number (.beyond "NaN"))
  else
    let isMark (c : Char) : Bool := c == 'e' || c == 'E'
    let (mantissa, exponent) := body.span fun c => !isMark c
    let (before, fraction) := mantissa.span (· != '.')
    let ds ← whole? before
    let fs ← match fraction with
      | _ :: fs => grouped? Char.isDigit fs
      | [] => some []
    let e ← match exponent with
      | _ :: e =>
        let (down, e) := signed e
        let n : Int := Json.Reader.natOfDigits (← grouped? Char.isDigit e)
        some (if down then -n else n)
      | [] => if fraction.isEmpty then none else some 0
    match Json.Double.ofDecimal? negative (Json.Reader.natOfDigits (ds ++ fs)) (e - fs.length) with
    | some x => some (.number (.float x))
    | none => some (infinite negative)

/-- Whether a text has digits where a pattern has `d`, and else its characters. -/
def fits : (pattern text : List Char) → Bool
  | [], [] => true
  | 'd' :: ps, c :: cs => c.isDigit && fits ps cs
  | p :: ps, c :: cs => p == c && fits ps cs
  | _, _ => false

/-- The number that the digits of a text make. -/
def part (cs : List Char) (start length : Nat) : Nat :=
  Json.Reader.natOfDigits ((cs.drop start).take length)

def daysIn (year month : Nat) : Nat :=
  if month = 2 then
    if year % 4 = 0 ∧ (year % 100 ≠ 0 ∨ year % 400 = 0) then 29 else 28
  else if month = 4 ∨ month = 6 ∨ month = 9 ∨ month = 11 then 30
  else 31

def isDate (cs : List Char) : Bool :=
  fits "dddd-dd-dd".toList cs && 1 ≤ part cs 5 2 && part cs 5 2 ≤ 12 && 1 ≤ part cs 8 2
    && part cs 8 2 ≤ daysIn (part cs 0 4) (part cs 5 2)

/-- A time of the day, which may have a fraction. -/
def isTime (cs : List Char) : Bool :=
  fits "dd:dd:dd".toList (cs.take 8) && part cs 0 2 ≤ 23 && part cs 3 2 ≤ 59 && part cs 6 2 ≤ 60
    && match cs.drop 8 with
      | [] => true
      | '.' :: fraction => !fraction.isEmpty && fraction.all Char.isDigit
      | _ => false

def isOffset : List Char → Bool
  | ['Z'] | ['z'] => true
  | sign :: rest =>
    (sign == '+' || sign == '-') && fits "dd:dd".toList rest && part rest 0 2 ≤ 23
      && part rest 3 2 ≤ 59
  | [] => false

/-- Whether a text is a date, a time, or both, with or without an offset. -/
def isDateTime (cs : List Char) : Bool :=
  isDate cs || isTime cs ||
    (isDate (cs.take 10) &&
      match cs.drop 10 with
      | mark :: rest =>
        let time := rest.takeWhile fun c => c.isDigit || c == ':' || c == '.'
        let offset := rest.drop time.length
        (mark == 'T' || mark == 't' || mark == ' ') && isTime time
          && (offset.isEmpty || isOffset offset)
      | [] => false)

/-- The key under which a date is kept. -/
def dateKey : String := "$__toml_private_datetime"

/-- A number, a date or a truth value, by all its characters. -/
def scalar? (cs : List Char) : Option Json :=
  if cs = "true".toList then some (.bool true)
  else if cs = "false".toList then some (.bool false)
  else if isDateTime cs then some (.object [(dateKey, .string (String.ofList cs))])
  else integer? cs <|> float? cs

/-- The characters of a scalar. A time may follow a date after a blank. -/
def scalarText (cs : List Char) : List Char :=
  let belongs (c : Char) : Bool := c.isAlphanum || c == '+' || c == '-' || c == '_' || c == '.' || c == ':'
  let first := cs.takeWhile belongs
  match cs.drop first.length with
  | ' ' :: rest =>
    let second := rest.takeWhile belongs
    if isDate first && fits "dd:".toList (second.take 3) then first ++ ' ' :: second else first
  | _ => first

/-! ## Values -/

mutual

/-- A value; `depth` is how many containers may still be opened. -/
def value : (fuel depth : Nat) → List Char → Option (Json × List Char)
  | 0, _, _ => none
  | fuel + 1, depth, cs =>
    match cs with
    | '"' :: _ | '\'' :: _ => (text? cs).map fun (s, rest) => (.string s, rest)
    | '[' :: rest => if depth = 0 then none else items fuel (depth - 1) [] rest
    | '{' :: rest =>
      if depth = 0 then none
      else match skipSpace rest with
        | '}' :: rest => some (.object [], rest)
        | rest => members fuel (depth - 1) [] rest
    | _ => do
      let word := scalarText cs
      some (← scalar? word, cs.drop word.length)

/-- The items of an array; a comma may follow the last one. -/
def items : (fuel depth : Nat) → (acc : List Json) → List Char → Option (Json × List Char)
  | 0, _, _, _ => none
  | fuel + 1, depth, acc, cs =>
    match skipAll cs with
    | ']' :: rest => some (.array acc.reverse, rest)
    | cs => do
      let (j, rest) ← value fuel depth cs
      match skipAll rest with
      | ',' :: rest => items fuel depth (j :: acc) rest
      | ']' :: rest => some (.array (j :: acc).reverse, rest)
      | _ => none

/-- The members of a table that is a value; they stand on one line. -/
def members : (fuel depth : Nat) → Table → List Char → Option (Json × List Char)
  | 0, _, _, _ => none
  | fuel + 1, depth, acc, cs => do
    let (way, key, rest) ← path? cs
    match rest with
    | '=' :: rest =>
      let (j, rest) ← value fuel depth (skipSpace rest)
      let acc ← Table.descend true way (Table.put key j) acc
      match skipSpace rest with
      | ',' :: rest => members fuel depth acc rest
      | '}' :: rest => some (.object (membersToJson acc), rest)
      | _ => none
    | _ => none

end

/-- How many containers may be open at once. -/
def maxDepth : Nat := 80

/-! ## Documents -/

/-- Reads lines into a document; `current` is the way to the table that was opened last. -/
def lines : (fuel : Nat) → (current : List String) → Table → List Char → Option Table
  | 0, _, _, _ => none
  | fuel + 1, current, doc, cs =>
    match skipAll cs with
    | [] => some doc
    | '[' :: '[' :: rest => do
      let (way, key, rest) ← path? rest
      match rest with
      | ']' :: ']' :: rest =>
        let doc ← Table.descend false way (Table.openItem key) doc
        lines fuel (way ++ [key]) doc (← lineEnd? rest)
      | _ => none
    | '[' :: rest => do
      let (way, key, rest) ← path? rest
      match rest with
      | ']' :: rest =>
        let doc ← Table.descend false way (Table.openTable key) doc
        lines fuel (way ++ [key]) doc (← lineEnd? rest)
      | _ => none
    | cs => do
      let (way, key, rest) ← path? cs
      match rest with
      | '=' :: rest =>
        let (j, rest) ← value (rest.length + 1) maxDepth (skipSpace rest)
        let doc ← Table.descend false current (Table.descend true way (Table.put key j)) doc
        lines fuel current doc (← lineEnd? rest)
      | _ => none

end Reader

/-- The value of a TOML text, when the text is a document. -/
def parse? (text : String) : Option Json := do
  let cs := match text.toList with
    | c :: cs => if c.toNat = 0xFEFF then cs else c :: cs
    | [] => []
  let doc ← Reader.lines (cs.length + 1) [] [] cs
  some (.object (membersToJson doc))

end Bundling.Toml
