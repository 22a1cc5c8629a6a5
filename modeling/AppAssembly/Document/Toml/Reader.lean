import AppAssembly.Decimal.Read
import AppAssembly.Document.Json.Reader
import AppAssembly.Document.Toml.Tables
import AppAssembly.Document.Yaml.Quoted

/-!
# Reading TOML

A document is a sequence of lines: headers and keys with their values. Dates and times are not
read.
-/

namespace AppAssembly.Toml

/-- Reads something off the front of a text. -/
abbrev Reader (α : Type) := List Char → Option (α × List Char)

/-- Whether a character may stand between the parts of a line. -/
def isBlank (c : Char) : Bool :=
  c = ' ' || c = '\t'

def skipBlanks (cs : List Char) : List Char :=
  cs.dropWhile isBlank

/-- Whether a character may stand in a text or comment; a tab may, other controls may not. -/
def isAllowed (c : Char) : Bool :=
  c = '\t' || (' ' ≤ c && c ≠ '\x7f')

/-- Skips a comment, if there is one. -/
def skipComment (cs : List Char) : List Char :=
  match cs with
  | '#' :: rest => rest.dropWhile isAllowed
  | _ => cs

def lineEnd? : List Char → Option (List Char)
  | '\n' :: rest => some rest
  | '\r' :: '\n' :: rest => some rest
  | _ => none

/-- Skips blanks and a comment up to the end of the line, where the text may end too. -/
def endLine? (cs : List Char) : Option (List Char) :=
  match skipComment (skipBlanks cs) with
  | [] => some []
  | rest => lineEnd? rest

def skipLines : (fuel : Nat) → List Char → List Char
  | 0, cs => cs
  | fuel + 1, cs =>
      let rest := skipComment (skipBlanks cs)
      match lineEnd? rest with
      | some rest => skipLines fuel rest
      | none => rest

/-! ## Strings -/

/-- The character behind a backslash that is no code. -/
def escaped? : Char → Option Char
  | 'b' => some '\x08'
  | 't' => some '\t'
  | 'n' => some '\n'
  | 'f' => some '\x0c'
  | 'r' => some '\r'
  | '"' => some '"'
  | '\\' => some '\\'
  | _ => none

def readEscape : Reader Char
  | [] => none
  | c :: rest =>
      match escaped? c with
      | some e => some (e, rest)
      | none => do
          let length ← if c = 'u' then some 4 else if c = 'U' then some 8 else none
          let digits := rest.take length
          if digits.length ≠ length then none
          else
            let n ← Json.hexNumber? digits
            return (← Yaml.charOfCode? n, rest.drop length)

/-- The rest of a text in double quotes. -/
def readBasic : (fuel : Nat) → Reader (List Char)
  | 0, _ => none
  | fuel + 1, cs =>
      match cs with
      | '"' :: rest => some ([], rest)
      | '\\' :: rest => do
          let (c, rest) ← readEscape rest
          let (cs, rest) ← readBasic fuel rest
          return (c :: cs, rest)
      | c :: rest =>
          if isAllowed c then (readBasic fuel rest).map fun (cs, rest) => (c :: cs, rest) else none
      | [] => none

/-- The rest of a text in single quotes, in which nothing is escaped. -/
def readLiteral : Reader (List Char)
  | '\'' :: rest => some ([], rest)
  | c :: rest =>
      if isAllowed c then (readLiteral rest).map fun (cs, rest) => (c :: cs, rest) else none
  | [] => none

/-- Skips a line end right behind the opening quotes. -/
def skipFirstLine (cs : List Char) : List Char :=
  (lineEnd? cs).getD cs

/-- Skips the rest of a line and all space behind it, if only blanks stand on it. -/
def skipJoin? (cs : List Char) : Option (List Char) :=
  (lineEnd? (skipBlanks cs)).map fun rest =>
    rest.dropWhile fun c => isBlank c || c = '\n' || c = '\r'

/-- The rest of a text in three double quotes. Up to two quotes may stand before the last three. -/
def readLongBasic : (fuel : Nat) → Reader (List Char)
  | 0, _ => none
  | fuel + 1, cs =>
      match cs with
      | '"' :: '"' :: '"' :: rest =>
          match rest with
          | '"' :: '"' :: rest => some (['"', '"'], rest)
          | '"' :: rest => some (['"'], rest)
          | rest => some ([], rest)
      | '\\' :: rest =>
          match skipJoin? rest with
          | some rest => readLongBasic fuel rest
          | none => do
              let (c, rest) ← readEscape rest
              let (cs, rest) ← readLongBasic fuel rest
              return (c :: cs, rest)
      | '\r' :: '\n' :: rest =>
          (readLongBasic fuel rest).map fun (cs, rest) => ('\n' :: cs, rest)
      | c :: rest =>
          if isAllowed c || c = '\n' then
            (readLongBasic fuel rest).map fun (cs, rest) => (c :: cs, rest)
          else none
      | [] => none

/-- The rest of a text in three single quotes. -/
def readLongLiteral : (fuel : Nat) → Reader (List Char)
  | 0, _ => none
  | fuel + 1, cs =>
      match cs with
      | '\'' :: '\'' :: '\'' :: rest =>
          match rest with
          | '\'' :: '\'' :: rest => some (['\'', '\''], rest)
          | '\'' :: rest => some (['\''], rest)
          | rest => some ([], rest)
      | '\r' :: '\n' :: rest =>
          (readLongLiteral fuel rest).map fun (cs, rest) => ('\n' :: cs, rest)
      | c :: rest =>
          if isAllowed c || c = '\n' then
            (readLongLiteral fuel rest).map fun (cs, rest) => (c :: cs, rest)
          else none
      | [] => none

/-- A text in quotes of any kind. -/
def readString : Reader String := fun cs =>
  let fuel := cs.length + 1
  let text := fun ((cs, rest) : List Char × List Char) => (String.ofList cs, rest)
  match cs with
  | '"' :: '"' :: '"' :: rest => (readLongBasic fuel (skipFirstLine rest)).map text
  | '"' :: rest => (readBasic fuel rest).map text
  | '\'' :: '\'' :: '\'' :: rest => (readLongLiteral fuel (skipFirstLine rest)).map text
  | '\'' :: rest => (readLiteral rest).map text
  | _ => none

/-! ## Keys -/

/-- Whether a character may stand in a key without quotes. -/
def isKeyChar (c : Char) : Bool :=
  ('a' ≤ c && c ≤ 'z') || ('A' ≤ c && c ≤ 'Z') || Decimal.isDigit c || c = '_' || c = '-'

def readKeyPart : Reader String := fun cs =>
  match cs with
  | '"' :: rest => (readBasic (rest.length + 1) rest).map fun (cs, rest) => (String.ofList cs, rest)
  | '\'' :: rest => (readLiteral rest).map fun (cs, rest) => (String.ofList cs, rest)
  | _ =>
      match cs.takeWhile isKeyChar with
      | [] => none
      | key => some (String.ofList key, cs.dropWhile isKeyChar)

/-- The parts of a key, with blanks around the dots. -/
def readKeyParts : (fuel : Nat) → Reader (List String)
  | 0, _ => none
  | fuel + 1, cs => do
      let (part, rest) ← readKeyPart (skipBlanks cs)
      match skipBlanks rest with
      | '.' :: rest => do
          let (parts, rest) ← readKeyParts fuel rest
          return (part :: parts, rest)
      | rest => some ([part], rest)

/-- How deep lists, tables and keys may be nested. -/
def nestingLimit : Nat := 80

/-- A key: the path in front of its last part, and that part. -/
def readKey : Reader (List String × String) := fun cs => do
  let (parts, rest) ← readKeyParts (cs.length + 1) cs
  if nestingLimit ≤ parts.length then none
  else return ((parts.dropLast, ← parts.getLast?), rest)

/-! ## Numbers -/

/-- Whether a character may stand in a number or word. -/
def isWordChar (c : Char) : Bool :=
  ('a' ≤ c && c ≤ 'z') || ('A' ≤ c && c ≤ 'Z') || Decimal.isDigit c
    || c = '_' || c = '-' || c = '+' || c = '.'

/-- Digits without their underscores, each of which stands between two digits. -/
def digits? (isDigit : Char → Bool) : (afterDigit : Bool) → List Char → Option (List Char)
  | afterDigit, [] => if afterDigit then some [] else none
  | afterDigit, c :: rest =>
      if isDigit c then (digits? isDigit true rest).map (c :: ·)
      else if c = '_' && afterDigit then digits? isDigit false rest
      else none

/-- Decimal digits without leading zeros. -/
def wholeDigits? (cs : List Char) : Option (List Char) := do
  let ds ← digits? Decimal.isDigit false cs
  if ds.head? = some '0' && cs.length ≠ 1 then none else some ds

/-- A whole number in the base that its first two characters name. -/
def based? (cs : List Char) : Option Nat :=
  let read := fun (base : Nat) (rest : List Char) => do
    let ds ← digits? (fun c => (Yaml.digitIn? base c).isSome) false rest
    Yaml.natIn? base ds
  match cs with
  | '0' :: 'x' :: rest => read 16 rest
  | '0' :: 'o' :: rest => read 8 rest
  | '0' :: 'b' :: rest => read 2 rest
  | _ => none

/-- A whole number of 64 bits. -/
def int? (cs : List Char) : Option Int := do
  let n ←
    match based? cs with
    | some n => some (n : Int)
    | none =>
        let (negative, rest) := Decimal.readSign cs
        let n ← Decimal.read? (← wholeDigits? rest)
        some (if negative then -(n : Int) else n)
  if RawValue.fits 63 n then some n else none

/-- The digits behind a mark, if it is there. -/
def digitsAfter? (marks : List Char) : List Char → Option (List Char)
  | [] => some []
  | c :: rest =>
      if marks.contains c then (digits? Decimal.isDigit false rest).map (c :: ·) else none

/-- A power of ten, if there is one. -/
def powerText? (cs : List Char) : Option (List Char) :=
  match cs with
  | c :: '-' :: rest =>
      (digitsAfter? ['e', 'E'] (c :: rest)).map fun ds => ds.take 1 ++ '-' :: ds.drop 1
  | c :: '+' :: rest => digitsAfter? ['e', 'E'] (c :: rest)
  | _ => digitsAfter? ['e', 'E'] cs

/-- The double of an unsigned decimal, whose whole part has no leading zeros. -/
def decimal? (cs : List Char) : Option Float := do
  let isMark := fun (c : Char) => c = 'e' || c = 'E'
  let mantissa := cs.takeWhile fun c => !isMark c
  let whole ← wholeDigits? (mantissa.takeWhile (· ≠ '.'))
  let fraction ← digitsAfter? ['.'] (mantissa.dropWhile (· ≠ '.'))
  let power ← powerText? (cs.dropWhile fun c => !isMark c)
  Decimal.readFloat? (String.ofList (whole ++ fraction ++ power))

/-- A double. Only a negative one may be too large. -/
def float? (cs : List Char) : Option Float := do
  let (negative, rest) := Decimal.readSign cs
  match String.ofList rest with
  | "inf" => some (if negative then -1.0 / 0.0 else 1.0 / 0.0)
  | "nan" => some (0.0 / 0.0)
  | _ =>
      let x ← decimal? rest
      if negative then some (-x) else if x.isFinite then some x else none

/-- The value of a word: a truth value or a number. -/
def word? (cs : List Char) : Option RawValue :=
  if cs = "true".toList then some (.bool true)
  else if cs = "false".toList then some (.bool false)
  else
    match int? cs with
    | some n => some (.integer n)
    | none =>
        if cs.any fun c => ['.', 'e', 'E', 'i', 'n'].contains c then
          (float? cs).map RawValue.ofFloat
        else none

/-! ## Values -/

mutual

/-- A value that is nested in `depth` others. -/
def readValue : (fuel : Nat) → (depth : Nat) → Reader Node
  | 0, _, _ => none
  | fuel + 1, depth, cs =>
      match cs with
      | '[' :: rest =>
          if nestingLimit ≤ depth + 1 then none
          else
            (readItems fuel (depth + 1) (skipLines fuel rest)).map fun (items, rest) =>
              (.list items, rest)
      | '\x7b' :: rest =>
          if nestingLimit ≤ depth + 1 then none
          else
            match skipBlanks rest with
            | '\x7d' :: rest => some (.table [], rest)
            | rest =>
                (readFields fuel (depth + 1) ⟨true, false, []⟩ rest).map fun (t, rest) =>
                  (t.toNode, rest)
      | c :: _ =>
          if c = '"' || c = '\'' then
            (readString cs).map fun (s, rest) => (.scalar (.quoted s), rest)
          else
            (word? (cs.takeWhile isWordChar)).map fun v =>
              (.scalar (.plain v), cs.dropWhile isWordChar)
      | [] => none

/-- The elements of a list up to the closing bracket, on any number of lines. -/
def readItems : (fuel : Nat) → (depth : Nat) → Reader (List Node)
  | 0, _, _ => none
  | fuel + 1, depth, cs =>
      match cs with
      | ']' :: rest => some ([], rest)
      | _ => do
          let (node, rest) ← readValue fuel depth cs
          match skipLines fuel rest with
          | ',' :: rest => do
              let (nodes, rest) ← readItems fuel depth (skipLines fuel rest)
              return (node :: nodes, rest)
          | ']' :: rest => some ([node], rest)
          | _ => none

/-- The fields of a table up to the closing brace, on one line. -/
def readFields : (fuel : Nat) → (depth : Nat) → Table → Reader Table
  | 0, _, _, _ => none
  | fuel + 1, depth, t, cs => do
      let ((path, key), rest) ← readKey cs
      let rest ← Json.after? ['='] rest
      let (node, rest) ← readValue fuel depth (skipBlanks rest)
      let t ← t.set path key node
      match skipBlanks rest with
      | ',' :: rest => readFields fuel depth t rest
      | '\x7d' :: rest => some (t, rest)
      | _ => none

end

/-! ## Documents -/

/-- Reads the lines of a document into its tables. `here` is the path of the open table. -/
def readLines : (fuel : Nat) → (here : List String) → Table → List Char → Option Table
  | 0, _, _, _ => none
  | fuel + 1, here, root, cs =>
      match skipLines (fuel + 1) cs with
      | [] => some root
      | '[' :: '[' :: rest => do
          let ((path, key), rest) ← readKey rest
          let rest ← Json.after? [']', ']'] rest
          let root ← root.openElement path key
          readLines fuel (path ++ [key]) root (← endLine? rest)
      | '[' :: rest => do
          let ((path, key), rest) ← readKey rest
          let rest ← Json.after? [']'] rest
          let root ← root.openTable path key
          readLines fuel (path ++ [key]) root (← endLine? rest)
      | rest => do
          let ((path, key), rest) ← readKey rest
          let rest ← Json.after? ['='] rest
          let (node, rest) ← readValue (2 * rest.length + 2) 0 (skipBlanks rest)
          let root ← root.changeAt false (Table.set path key node) here
          readLines fuel here root (← endLine? rest)

/-- The node that a whole text stands for. -/
def read? (text : String) : Option Node :=
  let cs := match text.toList with
    | c :: rest => if c.toNat = 0xFEFF then rest else c :: rest
    | [] => []
  (readLines (cs.length + 1) [] .opened cs).map Table.toNode

end AppAssembly.Toml
