import Bundling.Json

/-!
# Reading JSON

The strict grammar: no comments, no trailing commas, no control characters inside strings, no
surrogate that stands alone, at most 127 nested containers, and only blanks after the value. A reader
step takes the characters that are left and gives the value together with what follows it.
-/

namespace Bundling.Json

namespace Reader

/-- Drops blanks: space, line feed, carriage return and tab. -/
def skipBlank (cs : List Char) : List Char :=
  cs.dropWhile fun c => c == ' ' || c == '\n' || c == '\r' || c == '\t'

/-- The value of a hexadecimal digit. -/
def hexValue? (c : Char) : Option Nat :=
  if '0' ≤ c ∧ c ≤ '9' then some (c.toNat - 48)
  else if 'a' ≤ c ∧ c ≤ 'f' then some (c.toNat - 87)
  else if 'A' ≤ c ∧ c ≤ 'F' then some (c.toNat - 55)
  else none

/-- Four hexadecimal digits. -/
def hex4 : List Char → Option (Nat × List Char)
  | a :: b :: c :: d :: rest => do
    let w ← hexValue? a
    let x ← hexValue? b
    let y ← hexValue? c
    let z ← hexValue? d
    some (((w * 16 + x) * 16 + y) * 16 + z, rest)
  | _ => none

/-- The character of a `\u` escape, whose second half follows when the first is a leading
surrogate. -/
def unicodeEscape (cs : List Char) : Option (Char × List Char) := do
  let (u, rest) ← hex4 cs
  if 0xD800 ≤ u ∧ u < 0xDC00 then
    match rest with
    | '\\' :: 'u' :: rest =>
      let (v, rest) ← hex4 rest
      if 0xDC00 ≤ v ∧ v < 0xE000 then
        some (Char.ofNat (0x10000 + (u - 0xD800) * 0x400 + (v - 0xDC00)), rest)
      else none
    | _ => none
  else if 0xDC00 ≤ u ∧ u < 0xE000 then none
  else some (Char.ofNat u, rest)

/-- The rest of a string after its opening quote; `acc` holds what is read, last first. -/
def stringBody : Nat → List Char → List Char → Option (String × List Char)
  | 0, _, _ => none
  | _ + 1, _, [] => none
  | fuel + 1, acc, c :: rest =>
    if c = '"' then some (String.ofList acc.reverse, rest)
    else if c.toNat < 32 then none
    else if c = '\\' then
      match rest with
      | '"' :: rest => stringBody fuel ('"' :: acc) rest
      | '\\' :: rest => stringBody fuel ('\\' :: acc) rest
      | '/' :: rest => stringBody fuel ('/' :: acc) rest
      | 'b' :: rest => stringBody fuel (Char.ofNat 8 :: acc) rest
      | 'f' :: rest => stringBody fuel (Char.ofNat 12 :: acc) rest
      | 'n' :: rest => stringBody fuel ('\n' :: acc) rest
      | 'r' :: rest => stringBody fuel ('\r' :: acc) rest
      | 't' :: rest => stringBody fuel ('\t' :: acc) rest
      | 'u' :: rest =>
        match unicodeEscape rest with
        | some (d, rest) => stringBody fuel (d :: acc) rest
        | none => none
      | _ => none
    else stringBody fuel (c :: acc) rest

/-- The digits at the front. -/
def digits (cs : List Char) : List Char × List Char := cs.span Char.isDigit

def natOfDigits (ds : List Char) : Nat := ds.foldl (fun n d => n * 10 + (d.toNat - 48)) 0

/-- A number: no leading zeros, digits on both sides of the point and after the exponent mark. -/
def number (cs : List Char) : Option (Number × List Char) := do
  let (negative, cs) := match cs with
    | '-' :: rest => (true, rest)
    | _ => (false, cs)
  let (whole, rest) := digits cs
  if whole.isEmpty || (whole.head? == some '0' && whole.length > 1) then none
  else
    let fraction ← match rest with
      | '.' :: rest =>
        let (ds, rest) := digits rest
        if ds.isEmpty then none else some (some ds, rest)
      | _ => some (none, rest)
    let exponent ← match fraction.2 with
      | c :: rest =>
        if c == 'e' || c == 'E' then
          let (down, rest) := match rest with
            | '-' :: rest => (true, rest)
            | '+' :: rest => (false, rest)
            | _ => (false, rest)
          let (ds, rest) := digits rest
          if ds.isEmpty then none
          else
            let n : Int := natOfDigits ds
            some (some (if down then -n else n), rest)
        else some (none, fraction.2)
      | [] => some (none, [])
    let n : Int := natOfDigits whole
    let asFloat (ds : List Char) (e : Int) : Option (Number × List Char) :=
      (Double.ofDecimal? negative (natOfDigits ds) e).map fun x => (.float x, exponent.2)
    match fraction.1, exponent.1 with
    | none, none =>
      if negative then
        if n = 0 ∨ Nat.pow 2 63 < n then asFloat whole 0 else some (.int (-n), exponent.2)
      else if n < Nat.pow 2 64 then some (.int n, exponent.2) else asFloat whole 0
    | some ds, e => asFloat (whole ++ ds) (e.getD 0 - ds.length)
    | none, some e => asFloat whole e

mutual

/-- A value after blanks; `depth` is how many containers may still be opened. -/
def value : Nat → Nat → List Char → Option (Json × List Char)
  | 0, _, _ => none
  | fuel + 1, depth, cs =>
    match skipBlank cs with
    | 'n' :: 'u' :: 'l' :: 'l' :: rest => some (.null, rest)
    | 't' :: 'r' :: 'u' :: 'e' :: rest => some (.bool true, rest)
    | 'f' :: 'a' :: 'l' :: 's' :: 'e' :: rest => some (.bool false, rest)
    | '"' :: rest => (stringBody (rest.length + 1) [] rest).map fun (s, rest) => (.string s, rest)
    | '[' :: rest =>
      if depth = 0 then none
      else match skipBlank rest with
        | ']' :: rest => some (.array [], rest)
        | rest => items fuel (depth - 1) [] rest
    | '{' :: rest =>
      if depth = 0 then none
      else match skipBlank rest with
        | '}' :: rest => some (.object [], rest)
        | rest => members fuel (depth - 1) [] rest
    | cs => (number cs).map fun (n, rest) => (.number n, rest)

/-- The items of an array, at least one, and its closing bracket. -/
def items : Nat → Nat → List Json → List Char → Option (Json × List Char)
  | 0, _, _, _ => none
  | fuel + 1, depth, acc, cs => do
    let (j, rest) ← value fuel depth cs
    match skipBlank rest with
    | ',' :: rest => items fuel depth (j :: acc) rest
    | ']' :: rest => some (.array (j :: acc).reverse, rest)
    | _ => none

/-- The members of an object, at least one, and its closing brace. -/
def members : Nat → Nat → List (String × Json) → List Char → Option (Json × List Char)
  | 0, _, _, _ => none
  | fuel + 1, depth, acc, cs => do
    match skipBlank cs with
    | '"' :: rest =>
      let (k, rest) ← stringBody (rest.length + 1) [] rest
      match skipBlank rest with
      | ':' :: rest =>
        let (j, rest) ← value fuel depth rest
        match skipBlank rest with
        | ',' :: rest => members fuel depth ((k, j) :: acc) rest
        | '}' :: rest => some (.object ((k, j) :: acc).reverse, rest)
        | _ => none
      | _ => none
    | _ => none

end

end Reader

/-- How many containers may be open at once. -/
def maxDepth : Nat := 127

/-- The value a text is, when the whole text is one. -/
def parse? (text : String) : Option Json := do
  let cs := text.toList
  let (j, rest) ← Reader.value (cs.length + 2) maxDepth cs
  if (Reader.skipBlank rest).isEmpty then some j else none

end Bundling.Json
