import AppAssembly.Decimal.Nearest
import AppAssembly.Entries.Sorted

/-!
# Raw values

What a document says before names are looked up in a catalog: plain data, lists and tables.
-/

namespace AppAssembly

/-- A value as a document writes it. -/
inductive RawValue where
  | null
  | bool (b : Bool)
  /-- A whole number of at most 64 bits, with or without a sign. -/
  | integer (n : Int)
  | float (x : Float)
  | str (s : String)
  | list (items : List RawValue)
  /-- Values under unique keys, in the order in which they are written. -/
  | table (fields : List (String × RawValue))

namespace RawValue

/-- Whether a whole number has at most `bits` binary digits besides its sign. -/
def fits (bits : Nat) (n : Int) : Bool :=
  -(Nat.pow 2 bits : Nat) ≤ n && n < (Nat.pow 2 bits : Nat)

/-- Whether a whole number is held by a word of `bits` bits, be it with or without a sign. -/
def fitsWord (bits : Nat) (n : Int) : Bool :=
  fits (bits - 1) n || (0 ≤ n && fits bits n)

mutual

/-- Whether two raw values are equal; tables are equal if they have the same fields in order. -/
def same : RawValue → RawValue → Bool
  | null, null => true
  | bool a, bool b => a == b
  | integer a, integer b => a == b
  | float a, float b => a == b
  | str a, str b => a == b
  | list as, list bs => sameAll as bs
  | table as, table bs => sameFields as bs
  | _, _ => false

/-- Whether two lists of raw values are equal. -/
def sameAll : List RawValue → List RawValue → Bool
  | [], [] => true
  | a :: as, b :: bs => same a b && sameAll as bs
  | _, _ => false

def sameFields : List (String × RawValue) → List (String × RawValue) → Bool
  | [], [] => true
  | (j, a) :: as, (k, b) :: bs => j == k && same a b && sameFields as bs
  | _, _ => false

end

/-- A number that is none, or too large to be one, has no value. -/
def ofFloat (x : Float) : RawValue :=
  match Decimal.parts x with
  | .finite .. => .float x
  | _ => .null

end RawValue

end AppAssembly
