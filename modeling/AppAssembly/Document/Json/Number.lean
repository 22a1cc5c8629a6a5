import AppAssembly.Decimal.Digits
import AppAssembly.Document.Raw

/-!
# Numbers in JSON

A number has a significand of at most 64 bits: digits that would make it longer only count for
the power of ten. It is then multiplied or divided by the double nearest to that power, so the
result may differ from the nearest double in its last digits.
-/

namespace AppAssembly.Json

/-- A number as it is written. -/
structure NumberText where
  negative : Bool
  whole : List Char
  /-- The digits behind the point; without a point there are none. -/
  fraction : List Char
  /-- The power of ten that is written behind the digits. -/
  power : Option Int

/-- Takes digits into a significand as long as it has at most 64 bits; gives the digits that are
left over. -/
def takeDigits (significand : Nat) : List Char → Nat × List Char
  | [] => (significand, [])
  | c :: rest =>
      let next := 10 * significand + (Decimal.digit? c).getD 0
      if next < Nat.pow 2 64 then takeDigits next rest else (significand, c :: rest)

/-- The largest power of ten that a double can hold. -/
def largestPower : Nat := 308

/-- The double nearest to a power of ten. -/
def powerOfTen (exponent : Nat) : Float :=
  Decimal.nearest (Nat.pow 10 exponent) 1

/-- Divides by a power of ten, in several steps if the power is no double. -/
def divide (x : Float) (exponent : Nat) : Float :=
  if exponent ≤ largestPower then x / powerOfTen exponent
  else if x == 0.0 then x
  else divide (x / powerOfTen largestPower) (exponent - largestPower)
termination_by exponent
decreasing_by simp only [largestPower] at *; omega

/-- The significand times a power of ten, unless that is too large for a double. -/
def scale? (significand : Nat) (exponent : Int) : Option Float :=
  let x := Decimal.nearest significand 1
  if exponent < 0 then some (divide x exponent.natAbs)
  else if exponent ≤ largestPower then
    let y := x * powerOfTen exponent.toNat
    if y == 1.0 / 0.0 then none else some y
  else if significand = 0 then some x
  else none

/-- A whole number, if it has neither a point nor a power and fits into 64 bits. -/
def integer? (t : NumberText) : Option Int :=
  if t.fraction.isEmpty && t.power.isNone then
    match takeDigits 0 t.whole with
    | (n, []) =>
        if !t.negative then some n
        else if 0 < n && n ≤ Nat.pow 2 63 then some (-(n : Int))
        else none
    | _ => none
  else none

/-- The double a number stands for, unless it is too large for one. -/
def double? (t : NumberText) : Option Float :=
  let (significand, unused) := takeDigits 0 t.whole
  let (significand, unusedFraction) := takeDigits significand t.fraction
  let used := t.fraction.length - unusedFraction.length
  let exponent := (unused.length : Int) - used + t.power.getD 0
  (scale? significand exponent).map fun x => if t.negative then -x else x

/-- The value of a number. A negative zero is no whole number. -/
def NumberText.value? (t : NumberText) : Option RawValue :=
  match integer? t with
  | some n => some (.integer n)
  | none => (double? t).map .float

end AppAssembly.Json
