import AppAssembly.Decimal.Digits
import AppAssembly.Decimal.Nearest

/-!
# Reading decimals

A decimal text has an optional sign, digits with at most one point among them, and an optional
power of ten; it is rounded to the nearest double. The names of infinity and of the value that is
no number are accepted in any case.
-/

namespace AppAssembly.Decimal

/-- The double nearest to `n · 10 ^ exponent`. -/
def ofDecimal (n : Nat) (exponent : Int) : Float :=
  let top := exponent + length n
  if n = 0 ∨ top < -400 then 0.0
  else if 400 < top then nearest (Nat.pow 10 400) 1
  else if exponent < 0 then nearest n (Nat.pow 10 (-exponent).toNat)
  else nearest (n * Nat.pow 10 exponent.toNat) 1

/-- An optional sign, `true` for minus, and what follows it. -/
def readSign : List Char → Bool × List Char
  | '-' :: cs => (true, cs)
  | '+' :: cs => (false, cs)
  | cs => (false, cs)

def readInt? (cs : List Char) : Option Int :=
  let (negative, rest) := readSign cs
  (read? rest).map fun n => if negative then -(n : Int) else n

/-- The digits before and after an optional point; one of the two has to be there. -/
def readMantissa? (cs : List Char) : Option (Nat × Int) :=
  let whole := cs.takeWhile isDigit
  match cs.dropWhile isDigit with
  | [] => (read? whole).map fun n => (n, 0)
  | '.' :: fraction => (read? (whole ++ fraction)).map fun n => (n, -(fraction.length : Int))
  | _ => none

/-- An unsigned decimal with an optional power of ten. -/
def readUnsigned? (cs : List Char) : Option Float :=
  let isMark := fun c => c == 'e' || c == 'E'
  let mantissa := cs.takeWhile fun c => !isMark c
  match cs.dropWhile fun c => !isMark c with
  | [] => (readMantissa? mantissa).map fun (n, e) => ofDecimal n e
  | _ :: power =>
      match readMantissa? mantissa, readInt? power with
      | some (n, e), some p => some (ofDecimal n (e + p))
      | _, _ => none

/-- The double a decimal text stands for. -/
def readFloat? (s : String) : Option Float :=
  let (negative, cs) := readSign s.toList
  let magnitude :=
    match String.ofList (cs.map Char.toLower) with
    | "inf" | "infinity" => some (1.0 / 0.0)
    | "nan" => some (0.0 / 0.0)
    | _ => readUnsigned? cs
  magnitude.map fun x => if negative then -x else x

end AppAssembly.Decimal
