/-!
# Decimal digits

Reading and counting decimal digits. Only the ten ASCII digits count.
-/

namespace AppAssembly.Decimal

def digit? (c : Char) : Option Nat :=
  if '0' ≤ c ∧ c ≤ '9' then some (c.toNat - '0'.toNat) else none

/-- Whether a character is an ASCII digit. -/
def isDigit (c : Char) : Bool :=
  (digit? c).isSome

/-- The value of a digit string read after the digits of `acc`; `none` if there is another
character. -/
def readFrom (acc : Nat) : List Char → Option Nat
  | [] => some acc
  | c :: cs =>
      match digit? c with
      | some d => readFrom (10 * acc + d) cs
      | none => none

/-- The value of a nonempty digit string. -/
def read? : List Char → Option Nat
  | [] => none
  | cs => readFrom 0 cs

/-- How many digits a number has; zero has one. -/
def length (n : Nat) : Nat :=
  if n < 10 then 1 else length (n / 10) + 1

/-- The digits of a number, most significant first. -/
def digits (n : Nat) : List Char :=
  Nat.toDigits 10 n

/-- Moves the factors of ten of a number into an exponent, at most `fuel` of them. -/
def strip : (fuel : Nat) → (n : Nat) → (exponent : Int) → Nat × Int
  | 0, n, e => (n, e)
  | fuel + 1, n, e => if n ≠ 0 ∧ n % 10 = 0 then strip fuel (n / 10) (e + 1) else (n, e)

end AppAssembly.Decimal
