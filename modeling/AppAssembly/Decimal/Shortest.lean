import AppAssembly.Decimal.Digits
import AppAssembly.Decimal.Nearest

/-!
# The shortest decimal that reads back

The reals that round to a double form an interval. `shortest` takes the coarsest decimal grid with
a point in it, and on that grid the point nearest to the double. A style then says how the digits
are written down.
-/

namespace AppAssembly.Decimal

/-- Which of two equally near decimals is taken. -/
inductive Tie where
  | up
  | even
deriving DecidableEq, Repr

/-- A positive double as a fraction, with the bounds of the reals that round to it. All four share
one denominator; the bounds belong to the interval when the mantissa is even. -/
structure Interval where
  value : Nat
  low : Nat
  high : Nat
  den : Nat
  closed : Bool

/-- The interval of `mantissa · 2 ^ exponent`. Below a power of two the gap is half as wide. -/
def Interval.ofParts (mantissa : Nat) (exponent : Int) : Interval :=
  let scale := if exponent - 2 < 0 then 1 else Nat.pow 2 (exponent - 2).toNat
  let den := if exponent - 2 < 0 then Nat.pow 2 (2 - exponent).toNat else 1
  let below := if mantissa = Nat.pow 2 52 ∧ -1074 < exponent then 1 else 2
  { value := 4 * mantissa * scale, low := (4 * mantissa - below) * scale,
    high := (4 * mantissa + 2) * scale, den, closed := mantissa % 2 = 0 }

/-- The place of the leading digit: `10 ^ (place - 1) ≤ num / den < 10 ^ place`. -/
def place (num den : Nat) : Int :=
  if den ≤ num then length (num / den)
  else
    let inverse := length (den / num)
    if den = num * Nat.pow 10 (inverse - 1) then 2 - inverse else 1 - inverse

/-- Whether `n · 10 ^ grid` lies in the interval. -/
def Interval.contains (i : Interval) (n : Nat) (grid : Int) : Bool :=
  let point := if grid < 0 then n * i.den else n * Nat.pow 10 grid.toNat * i.den
  let factor := if grid < 0 then Nat.pow 10 (-grid).toNat else 1
  if i.closed then i.low * factor ≤ point && point ≤ i.high * factor
  else i.low * factor < point && point < i.high * factor

/-- The point of a decimal grid that reads back and lies nearest to the value, if there is one. -/
def Interval.onGrid? (i : Interval) (tie : Tie) (grid : Int) : Option Nat :=
  let num := if grid < 0 then i.value * Nat.pow 10 (-grid).toNat else i.value
  let den := if grid < 0 then i.den else i.den * Nat.pow 10 grid.toNat
  let floor := num / den
  let twice := 2 * (num % den)
  let upper :=
    den < twice || (twice == den && match tie with | .up => true | .even => floor % 2 == 1)
  match i.contains floor grid, i.contains (floor + 1) grid with
  | true, true => some (if upper then floor + 1 else floor)
  | true, false => some floor
  | false, true => some (floor + 1)
  | false, false => none

/-- The fewest digits that read back as `mantissa · 2 ^ exponent`, and their power of ten. -/
def shortest (tie : Tie) (mantissa : Nat) (exponent : Int) : Nat × Int :=
  let i := Interval.ofParts mantissa exponent
  let top := place i.value i.den
  let found := (List.range 17).findSome? fun (n : Nat) =>
    let grid : Int := top - (n + 1)
    (i.onGrid? tie grid).map fun point => (point, grid)
  match found with
  | some (point, grid) => strip 17 point grid
  | none => (0, 0)

/-- How a double is written. -/
structure FloatStyle where
  /-- Which of two equally short decimals is taken. -/
  tie : Tie
  /-- What follows a whole number. -/
  whole : String
  /-- The range of places of the point that are written without an exponent; `none` for all. -/
  pointRange : Option (Int × Int)

/-- The digits with a point at `point` places from the left. -/
def withPoint (style : FloatStyle) (ds : List Char) (point : Int) : String :=
  if (ds.length : Int) ≤ point then
    String.ofList (ds ++ List.replicate (point - ds.length).toNat '0') ++ style.whole
  else if 0 < point then
    String.ofList (ds.take point.toNat ++ '.' :: ds.drop point.toNat)
  else
    String.ofList ('0' :: '.' :: List.replicate (-point).toNat '0' ++ ds)

/-- One digit before the point, then the rest and the power of ten. -/
def withPower (ds : List Char) (point : Int) : String :=
  let head := ds.take 1
  let tail := if ds.length = 1 then [] else '.' :: ds.drop 1
  String.ofList (head ++ tail) ++ "e" ++ toString (point - 1)

/-- The text of a double in a style. -/
def FloatStyle.render (style : FloatStyle) (x : Float) : String :=
  match parts x with
  | .nan => "NaN"
  | .infinite negative => if negative then "-inf" else "inf"
  | .finite negative mantissa exponent =>
      let sign := if negative then "-" else ""
      if mantissa = 0 then sign ++ "0" ++ style.whole
      else
        let (n, e) := shortest style.tie mantissa exponent
        let ds := digits n
        let point := ds.length + e
        let plain :=
          match style.pointRange with
          | none => true
          | some (low, high) => low ≤ point && point ≤ high
        sign ++ if plain then withPoint style ds point else withPower ds point

/-- Values are described without an exponent and without a trailing point. -/
def FloatStyle.plain : FloatStyle := ⟨.up, "", none⟩

/-- Documents keep a point in whole numbers and write very large and very small ones with an
exponent. -/
def FloatStyle.document : FloatStyle := ⟨.even, ".0", some (-4, 16)⟩

end AppAssembly.Decimal
