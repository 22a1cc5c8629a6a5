import AppAssembly.Document.Json.Number
import AppAssembly.Document.Node

/-!
# Reading JSON

A reader of a text gives what it read and the text behind it, or nothing. Numbers that are too
large and strings with half a surrogate pair are read as nodes without a value, since a part that
nobody asks for may hold them.
-/

namespace AppAssembly.Json

/-- Reads something off the front of a text. -/
abbrev Reader (α : Type) := List Char → Option (α × List Char)

/-- Whether a character may stand between tokens. -/
def isSpace (c : Char) : Bool :=
  c = ' ' || c = '\t' || c = '\n' || c = '\r'

def skipSpace (cs : List Char) : List Char :=
  cs.dropWhile isSpace

def after? : List Char → List Char → Option (List Char)
  | [], cs => some cs
  | _ :: _, [] => none
  | d :: ds, c :: cs => if c = d then after? ds cs else none

/-! ## Strings -/

/-- A part of a string: a character, or a 16-bit unit written with its code. -/
inductive Piece where
  | char (c : Char)
  | unit (n : Nat)

def hexDigit? (c : Char) : Option Nat :=
  if 'a' ≤ c ∧ c ≤ 'f' then some (c.toNat - 'a'.toNat + 10)
  else if 'A' ≤ c ∧ c ≤ 'F' then some (c.toNat - 'A'.toNat + 10)
  else Decimal.digit? c

def hexNumber? (cs : List Char) : Option Nat :=
  cs.foldlM (fun n c => (hexDigit? c).map fun d => 16 * n + d) 0

/-- The character behind a backslash that is no code. -/
def escaped? : Char → Option Char
  | '"' => some '"'
  | '\\' => some '\\'
  | '/' => some '/'
  | 'b' => some '\x08'
  | 'f' => some '\x0c'
  | 'n' => some '\n'
  | 'r' => some '\r'
  | 't' => some '\t'
  | _ => none

/-- The pieces of a string up to the closing quote. -/
def readPieces : Reader (List Piece)
  | '"' :: rest => some ([], rest)
  | '\\' :: 'u' :: a :: b :: c :: d :: rest => do
      let n ← hexNumber? [a, b, c, d]
      let (pieces, rest) ← readPieces rest
      return (.unit n :: pieces, rest)
  | '\\' :: c :: rest => do
      let e ← escaped? c
      let (pieces, rest) ← readPieces rest
      return (.char e :: pieces, rest)
  | c :: rest =>
      if c < ' ' then none
      else do
        let (pieces, rest) ← readPieces rest
        return (.char c :: pieces, rest)
  | [] => none

/-- The characters of some pieces. The units of a surrogate pair make one character together and
none alone. -/
def joinPieces : List Piece → Option (List Char)
  | [] => some []
  | .char c :: rest => (joinPieces rest).map (c :: ·)
  | .unit high :: .unit low :: rest =>
      if 0xD800 ≤ high ∧ high < 0xDC00 then
        if 0xDC00 ≤ low ∧ low < 0xE000 then
          (joinPieces rest).map
            (Char.ofNat (0x10000 + (high - 0xD800) * 0x400 + (low - 0xDC00)) :: ·)
        else none
      else if 0xDC00 ≤ high ∧ high < 0xE000 then none
      else (joinPieces (.unit low :: rest)).map (Char.ofNat high :: ·)
  | .unit n :: rest =>
      if 0xD800 ≤ n ∧ n < 0xE000 then none else (joinPieces rest).map (Char.ofNat n :: ·)

/-- The text of a string behind its opening quote; `none` if it is no text. -/
def readString : Reader (Option String) := fun cs => do
  let (pieces, rest) ← readPieces cs
  return ((joinPieces pieces).map String.ofList, rest)

/-! ## Numbers -/

/-- At least one digit. -/
def readDigits : Reader (List Char) := fun cs =>
  match cs.takeWhile Decimal.isDigit with
  | [] => none
  | digits => some (digits, cs.dropWhile Decimal.isDigit)

/-- The digits behind a point, if there is one. -/
def readFraction : Reader (List Char)
  | '.' :: rest => readDigits rest
  | rest => some ([], rest)

/-- A power of ten, if there is one. -/
def readPower (cs : List Char) : Option (Option Int × List Char) :=
  match cs with
  | c :: rest =>
      if c = 'e' || c = 'E' then do
        let (negative, rest) := match rest with
          | '-' :: rest => (true, rest)
          | '+' :: rest => (false, rest)
          | rest => (false, rest)
        let (digits, rest) ← readDigits rest
        let n ← Decimal.read? digits
        return (some (if negative then -(n : Int) else n), rest)
      else some (none, cs)
  | [] => some (none, [])

/-- A number. Its whole part has no leading zeros. -/
def readNumber : Reader NumberText := fun cs => do
  let (negative, cs) := match cs with
    | '-' :: rest => (true, rest)
    | rest => (false, rest)
  let (whole, cs) ← readDigits cs
  if whole.head? = some '0' && whole.length ≠ 1 then none
  else do
    let (fraction, cs) ← readFraction cs
    let (power, cs) ← readPower cs
    return (⟨negative, whole, fraction, power⟩, cs)

/-! ## Nodes -/

def stringNode : Option String → Node
  | some s => .scalar (.quoted s)
  | none => .scalar ⟨none, none, false, false⟩

def numberNode (t : NumberText) : Node :=
  .scalar ⟨none, t.value?, false, false⟩

/-- A word that stands for a value. -/
def readWord (cs : List Char) : Option (Node × List Char) :=
  let word := fun (text : String) (s : Scalar) =>
    (after? text.toList cs).map fun rest => (Node.scalar s, rest)
  (word "null" ⟨none, some .null, true, false⟩).or
    ((word "true" (.plain (.bool true))).or (word "false" (.plain (.bool false))))

mutual

/-- A value and the space in front of it. -/
def readNode : (fuel : Nat) → Reader Node
  | 0, _ => none
  | fuel + 1, cs =>
      match skipSpace cs with
      | '"' :: rest => (readString rest).map fun (s, rest) => (stringNode s, rest)
      | '[' :: rest =>
          match skipSpace rest with
          | ']' :: rest => some (.list [], rest)
          | rest => (readItems fuel rest).map fun (items, rest) => (.list items, rest)
      | '\x7b' :: rest =>
          match skipSpace rest with
          | '\x7d' :: rest => some (.table [], rest)
          | rest => (readFields fuel rest).map fun (fields, rest) => (.table fields, rest)
      | c :: rest =>
          if c = '-' || Decimal.isDigit c then
            (readNumber (c :: rest)).map fun (t, rest) => (numberNode t, rest)
          else readWord (c :: rest)
      | [] => none

/-- The elements of a list up to the closing bracket. -/
def readItems : (fuel : Nat) → Reader (List Node)
  | 0, _ => none
  | fuel + 1, cs => do
      let (node, rest) ← readNode fuel cs
      match skipSpace rest with
      | ',' :: rest => do
          let (nodes, rest) ← readItems fuel rest
          return (node :: nodes, rest)
      | ']' :: rest => some ([node], rest)
      | _ => none

/-- The fields of a table up to the closing brace. -/
def readFields : (fuel : Nat) → Reader (List (Option String × Node))
  | 0, _ => none
  | fuel + 1, cs =>
      match skipSpace cs with
      | '"' :: rest => do
          let (key, rest) ← readString rest
          let rest ← after? [':'] (skipSpace rest)
          let (node, rest) ← readNode fuel rest
          match skipSpace rest with
          | ',' :: rest => do
              let (fields, rest) ← readFields fuel rest
              return ((key, node) :: fields, rest)
          | '\x7d' :: rest => some ([(key, node)], rest)
          | _ => none
      | _ => none

end

/-- The node that a whole text stands for. -/
def read? (text : String) : Option Node :=
  let cs := text.toList
  match readNode (cs.length + 1) cs with
  | some (node, rest) => if (skipSpace rest).isEmpty then some node else none
  | none => none

end AppAssembly.Json
