/-!
# Binary64 numbers as fractions

A finite binary64 number is `mantissa · 2^exponent` with a sign, so reading a decimal is one rounding
of a quotient of naturals, and writing one is a search for the shortest decimal that rounds back.
Nothing here computes with machine floats.
-/

namespace Bundling.Json

/-- A finite binary64 number: `mantissa < 2^53` and `-1074 ≤ exponent ≤ 971`. -/
structure Double where
  negative : Bool
  mantissa : Nat
  exponent : Int
  deriving DecidableEq, Repr

/-- `num / den` to the nearest natural, a half going to the even neighbour. -/
def roundHalfEven (num den : Nat) : Nat :=
  let q := num / den
  let r := num % den
  if 2 * r < den then q else if den < 2 * r then q + 1 else if q % 2 = 0 then q else q + 1

namespace Double

/-- Multiplies the fraction `num / den` by `base ^ e`. -/
private def scale (base : Nat) (num den : Nat) (e : Int) : Nat × Nat :=
  if 0 ≤ e then (num * Nat.pow base e.toNat, den) else (num, den * Nat.pow base (-e).toNat)

/-- The binary64 number nearest to `digits · 10^e10`; none when it is too large. -/
def ofDecimal? (negative : Bool) (digits : Nat) (e10 : Int) : Option Double :=
  let size : Int := (Nat.toDigits 10 digits).length + e10
  if digits = 0 ∨ size < -400 then some ⟨negative, 0, -1074⟩
  else if 400 < size then none
  else
    let (num, den) := scale 10 digits 1 e10
    let guess : Int := (Nat.log2 num : Int) - (Nat.log2 den : Int) - 52
    let quotientSize (q : Int) : Nat := let (n, d) := scale 2 num den (-q); n / d
    let q := if Nat.pow 2 53 ≤ quotientSize guess then guess + 1
      else if quotientSize guess < Nat.pow 2 52 then guess - 1 else guess
    let q := max q (-1074)
    let (n, d) := scale 2 num den (-q)
    let m := roundHalfEven n d
    let (m, q) := if m = Nat.pow 2 53 then (Nat.pow 2 52, q + 1) else (m, q)
    if 971 < q then none else some ⟨negative, m, q⟩

/-- Whether `digits · 10^e10` rounds to `m · 2^q`: it lies between the midpoints to the neighbours,
which belong to the interval when the mantissa is even. -/
private def readsBack (m : Nat) (q : Int) (digits : Nat) (e10 : Int) : Bool :=
  let low := if m = Nat.pow 2 52 ∧ q ≠ -1074 then 4 * m - 1 else 4 * m - 2
  let high := 4 * m + 2
  let (a, b) := scale 10 digits 1 e10
  let (c, d) := scale 2 1 1 (q - 2)
  let left := a * d
  let lo := low * c * b
  let hi := high * c * b
  if m % 2 = 0 then lo ≤ left && left ≤ hi else lo < left && left < hi

/-- The shortest decimal that reads back, as digits and a power of ten; of two the nearer one. -/
def shortest (x : Double) : Nat × Int :=
  if x.mantissa = 0 then (0, 0)
  else
    let (num, den) := scale 2 x.mantissa 1 x.exponent
    let order : Int :=
      let guess : Int := ((Nat.toDigits 10 num).length : Int) - ((Nat.toDigits 10 den).length : Int)
      let (a, b) := scale 10 num den (-guess)
      if a < b then guess - 1 else guess
    let tryDigits (k : Nat) : Option (Nat × Int) :=
      let e10 : Int := order - (k : Int) + 1
      let (a, b) := scale 10 num den (-e10)
      let lower := a / b
      let nearest := roundHalfEven a b
      let other := if nearest = lower then lower + 1 else lower
      if readsBack x.mantissa x.exponent nearest e10 then some (nearest, e10)
      else if readsBack x.mantissa x.exponent other e10 then some (other, e10)
      else none
    ((List.range 17).findSome? fun i => tryDigits (i + 1)).getD (x.mantissa, x.exponent)

/-- Positional between `10^-5` and `10^16`, else with an exponent that always shows its sign. -/
def text (x : Double) : String :=
  let sign := if x.negative then "-" else ""
  if x.mantissa = 0 then sign ++ "0.0"
  else
    let (digits, e10) := x.shortest
    let ds := (Nat.toDigits 10 digits)
    let trailing := (ds.reverse.takeWhile (· == '0')).length
    let ds := ds.take (ds.length - trailing)
    let e10 := e10 + trailing
    let order : Int := e10 + ds.length - 1
    let whole := String.ofList
    if order < -5 ∨ 15 < order then
      let tail := if ds.length ≤ 1 then "" else "." ++ whole (ds.drop 1)
      let mark := if order < 0 then "e-" else "e+"
      sign ++ whole (ds.take 1) ++ tail ++ mark ++ toString order.natAbs
    else if order < 0 then
      sign ++ "0." ++ whole (List.replicate (order.natAbs - 1) '0' ++ ds)
    else if 0 ≤ e10 then
      sign ++ whole (ds ++ List.replicate e10.toNat '0') ++ ".0"
    else
      let n := order.toNat + 1
      sign ++ whole (ds.take n) ++ "." ++ whole (ds.drop n)

end Double

end Bundling.Json
