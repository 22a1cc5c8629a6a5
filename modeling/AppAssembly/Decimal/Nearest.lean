/-!
# The nearest binary fraction

A double is a sign, a mantissa below `2^53` and a power of two. `nearest` rounds a quotient of two
naturals to the nearest double, a tie going to the even mantissa, in exact arithmetic.
-/

namespace AppAssembly.Decimal

/-- A double taken apart. -/
inductive Parts where
  | nan
  | infinite (negative : Bool)
  /-- The value `± mantissa · 2 ^ exponent`. -/
  | finite (negative : Bool) (mantissa : Nat) (exponent : Int)
deriving DecidableEq, Repr

/-- The parts of a double, read off its bits. -/
def parts (x : Float) : Parts :=
  let bits := x.toBits.toNat
  let negative := bits / Nat.pow 2 63 == 1
  let biased : Nat := bits / Nat.pow 2 52 % 2048
  let fraction := bits % Nat.pow 2 52
  if biased = 2047 then
    if fraction = 0 then .infinite negative else .nan
  else if biased = 0 then .finite negative fraction (-1074)
  else .finite negative (fraction + Nat.pow 2 52) ((biased : Int) - 1075)

/-- The quotient rounded to the nearest natural, a tie to the even one. -/
def roundDiv (num den : Nat) : Nat :=
  let quotient := num / den
  let twice := 2 * (num % den)
  if twice < den ∨ (twice = den ∧ quotient % 2 = 0) then quotient else quotient + 1

/-- The numerator and denominator of `num / (den · 2 ^ exponent)`. -/
def unscale (num den : Nat) (exponent : Int) : Nat × Nat :=
  if exponent < 0 then (num * Nat.pow 2 (-exponent).toNat, den)
  else (num, den * Nat.pow 2 exponent.toNat)

/-- The double nearest to `num / den`; too large a quotient becomes infinite. -/
def nearest (num den : Nat) : Float :=
  if num = 0 ∨ den = 0 then 0.0
  else
    let estimate : Int := (num.log2 : Int) - den.log2 - 52
    let (n, d) := unscale num den estimate
    let exponent := max (if n < d * Nat.pow 2 52 then estimate - 1 else estimate) (-1074)
    let (n, d) := unscale num den exponent
    let rounded := roundDiv n d
    let (mantissa, exponent) :=
      if rounded = Nat.pow 2 53 then (Nat.pow 2 52, exponent + 1) else (rounded, exponent)
    if 971 < exponent then Float.ofBits 0x7FF0000000000000
    else if mantissa < Nat.pow 2 52 then Float.ofBits (UInt64.ofNat mantissa)
    else
      Float.ofBits (UInt64.ofNat
        ((exponent + 1075).toNat * Nat.pow 2 52 + (mantissa - Nat.pow 2 52)))

def ofInt (n : Int) : Float :=
  if n < 0 then -(nearest n.natAbs 1) else nearest n.natAbs 1

end AppAssembly.Decimal
