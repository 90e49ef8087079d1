import Bundling.Text.Base64

/-!
# Numbers of segments

The numbers of a segment are written in base 64 with five bits a digit, the lowest first; a sixth bit
says that more digits follow. The lowest bit of a whole number is its sign.
-/

namespace Bundling.SourceMap

/-- The digits of a natural number. The number of digits is bounded by `fuel`. -/
def naturalDigits : (fuel : Nat) → Nat → List Char
  | 0, n => [Text.base64Digit (n % 32)]
  | fuel + 1, n =>
    if n < 32 then [Text.base64Digit n]
    else Text.base64Digit (n % 32 + 32) :: naturalDigits fuel (n / 32)

/-- The written form of a whole number. -/
def numberText (i : Int) : List Char :=
  let n := if i < 0 then 2 * i.natAbs + 1 else 2 * i.natAbs
  naturalDigits n n

/-- The number that a natural with the sign in its lowest bit stands for. -/
def signed (n : Nat) : Int := if n % 2 = 0 then (n / 2 : Nat) else -((n / 2 : Nat) : Int)

/-- The most digits a number may have. -/
def digitLimit : Nat := 13

/-- The numbers of a segment, given what has been read of the current one: its value and the number of
its digits. -/
def numbersFrom? : (value digits : Nat) → List Char → Option (List Int)
  | _, digits, [] => if digits = 0 then some [] else none
  | value, digits, c :: cs => do
    let d ← Text.base64Value? c
    if digitLimit ≤ digits then none
    else
      let value := value + d % 32 * Nat.pow 32 digits
      if d < 32 then
        let rest ← numbersFrom? 0 0 cs
        some (signed value :: rest)
      else numbersFrom? value (digits + 1) cs

/-- The numbers of a segment. -/
def numbers? (segment : List Char) : Option (List Int) := numbersFrom? 0 0 segment

end Bundling.SourceMap
