import AppAssembly.Decimal.Read
import AppAssembly.Document.Node

/-!
# Plain scalars in YAML

A scalar without quotes is null, a truth value or a number if it is spelled like one, and a text
otherwise.
-/

namespace AppAssembly.Yaml

/-- Whether a text is null: only these spellings are. -/
def isNull (s : String) : Bool :=
  ["null", "Null", "NULL", "~"].contains s

def bool? (s : String) : Option Bool :=
  if ["true", "True", "TRUE"].contains s then some true
  else if ["false", "False", "FALSE"].contains s then some false
  else none

/-- Digits behind a leading zero, with or without sign: these are a text. -/
def hasLeadingZero (cs : List Char) : Bool :=
  match (Decimal.readSign cs).2 with
  | '0' :: rest => !rest.isEmpty && rest.all Decimal.isDigit
  | _ => false

/-- The value of a digit in any base up to sixteen. -/
def digitIn? (base : Nat) (c : Char) : Option Nat :=
  let d :=
    if 'a' ≤ c ∧ c ≤ 'f' then some (c.toNat - 'a'.toNat + 10)
    else if 'A' ≤ c ∧ c ≤ 'F' then some (c.toNat - 'A'.toNat + 10)
    else Decimal.digit? c
  d.filter (· < base)

/-- The value of digits in a base. -/
def natIn? (base : Nat) : List Char → Option Nat
  | [] => none
  | cs => cs.foldlM (fun n c => (digitIn? base c).map fun d => base * n + d) 0

/-- A whole number without sign: decimal, or in the base that its first two characters name. -/
def magnitude? : List Char → Option Nat
  | '0' :: 'x' :: cs => natIn? 16 cs
  | '0' :: 'o' :: cs => natIn? 8 cs
  | '0' :: 'b' :: cs => natIn? 2 cs
  | cs => if hasLeadingZero cs then none else natIn? 10 cs

/-- A whole number with an optional sign. -/
def int? (cs : List Char) : Option Int :=
  let (negative, rest) := Decimal.readSign cs
  (magnitude? rest).map fun n => if negative then -(n : Int) else n

/-- The double that a text spells. Infinity and the value that is no number start with a point. -/
def float? (s : String) : Option Float :=
  if [".inf", ".Inf", ".INF", "+.inf", "+.Inf", "+.INF"].contains s then some (1.0 / 0.0)
  else if ["-.inf", "-.Inf", "-.INF"].contains s then some (-1.0 / 0.0)
  else if [".nan", ".NaN", ".NAN"].contains s then some (0.0 / 0.0)
  else (Decimal.readFloat? s).filter Float.isFinite

/-- The value of a whole number: beyond 64 bits there is none, and beyond 128 bits it counts as a
double. -/
def intValue? (s : String) (n : Int) : Option RawValue :=
  if RawValue.fitsWord 64 n then some (.integer n)
  else if RawValue.fitsWord 128 n then none
  else some (((float? s).map RawValue.ofFloat).getD (.str s))

def plainValue? (s : String) : Option RawValue :=
  if s.isEmpty || isNull s then some .null
  else
    match bool? s with
    | some b => some (.bool b)
    | none =>
        match int? s.toList with
        | some n => intValue? s n
        | none =>
            if hasLeadingZero s.toList then some (.str s)
            else some (((float? s).map RawValue.ofFloat).getD (.str s))

def plain (s : String) : Scalar where
  text? := some s
  value? := plainValue? s
  absent := s.isEmpty || isNull s
  empty := s.isEmpty

end AppAssembly.Yaml
