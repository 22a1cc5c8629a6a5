import AppAssembly.Document.Json.Reader
import AppAssembly.Document.Yaml.Scalar

/-!
# Characters with their columns, and scalars in YAML

Where a line starts decides what belongs together, so every character is read with its column.
A scalar may go on over several lines: a line break becomes a space, and each empty line a break.
-/

namespace AppAssembly.Yaml

abbrev Marks := List (Char × Nat)

/-- Gives every character its column, the first one the given column. -/
def markFrom (column : Nat) : List Char → Marks
  | [] => []
  | c :: rest => (c, column) :: markFrom (if c = '\n' then 0 else column + 1) rest

/-- Whether a character is a space or a tab. -/
def isBlank (c : Char) : Bool :=
  c = ' ' || c = '\t'

/-- Whether a blank, a line break or the end comes next. -/
def blankNext : Marks → Bool
  | [] => true
  | (c, _) :: _ => isBlank c || c = '\n'

/-- Whether one of some characters comes next. -/
def oneNext (cs : List Char) : Marks → Bool
  | [] => false
  | (c, _) :: _ => cs.contains c

/-- The characters that end a plain scalar inside brackets. -/
def flowMarks : List Char := [',', '[', ']', '\x7b', '\x7d']

/-! ## Folding lines -/

/-- A part of a scalar that may go on over several lines. -/
inductive Piece where
  | char (c : Char)
  /-- A blank or line break that is meant. -/
  | escaped (c : Char)
  /-- A line break that is not there for the text. -/
  | continued
deriving DecidableEq

/-- What stands between two parts of a text. -/
structure Gap where
  /-- Blanks, last one first. -/
  blanks : List Char := []
  breaks : Nat := 0
  /-- Whether a line break was taken back. -/
  joined : Bool := false

/-- What a gap becomes. -/
def Gap.text (g : Gap) : List Char :=
  if g.joined then g.blanks.reverse ++ List.replicate g.breaks '\n'
  else
    match g.breaks with
    | 0 => g.blanks.reverse
    | 1 => [' ']
    | n + 2 => List.replicate (n + 1) '\n'

/-- The text of some pieces, the gap before them included. -/
def fold (g : Gap) : List Piece → List Char
  | [] => g.text
  | .continued :: rest => fold { g with joined := true } rest
  | .escaped c :: rest => g.text ++ c :: fold {} rest
  | .char c :: rest =>
      if c = '\n' then
        fold (if g.joined then { g with breaks := g.breaks + 1 }
          else { g with blanks := [], breaks := g.breaks + 1 }) rest
      else if isBlank c then
        fold (if g.joined || 0 < g.breaks then g else { g with blanks := c :: g.blanks }) rest
      else g.text ++ c :: fold {} rest

/-! ## Quoted scalars -/

/-- The character behind a backslash that is no code. -/
def escapedChar? (c : Char) : Option Char :=
  match c with
  | '0' => some '\x00'
  | 'a' => some '\x07'
  | 'b' => some '\x08'
  | 't' | '\t' => some '\t'
  | 'n' => some '\n'
  | 'v' => some '\x0b'
  | 'f' => some '\x0c'
  | 'r' => some '\r'
  | 'e' => some '\x1b'
  | ' ' | '"' | '/' | '\\' => some c
  | 'N' => some (Char.ofNat 0x85)
  | '_' => some (Char.ofNat 0xA0)
  | 'L' => some (Char.ofNat 0x2028)
  | 'P' => some (Char.ofNat 0x2029)
  | _ => none

/-- How many digits follow a letter that announces a code. -/
def codeLength : Char → Nat
  | 'x' => 2
  | 'u' => 4
  | 'U' => 8
  | _ => 0

/-- The character with a code, if there is one. -/
def charOfCode? (n : Nat) : Option Char :=
  if n < 0xD800 ∨ (0xDFFF < n ∧ n ≤ 0x10FFFF) then some (Char.ofNat n) else none

/-- The digits of a code and the text behind them. -/
def splitCode (length : Nat) (rest : Marks) : Option (Char × Marks) := do
  let digits := (rest.take length).map Prod.fst
  if digits.length ≠ length then none
  else
    let n ← Json.hexNumber? digits
    return (← charOfCode? n, rest.drop length)

/-- Whether a line that separates documents comes next. -/
def separatorNext : Marks → Bool
  | ('-', 0) :: ('-', _) :: ('-', _) :: rest => blankNext rest
  | ('.', 0) :: ('.', _) :: ('.', _) :: rest => blankNext rest
  | _ => false

/-- The pieces of a scalar in double quotes, up to the closing one. -/
def doubleQuoted : (fuel : Nat) → Marks → Option (List Piece × Marks)
  | 0, _ => none
  | fuel + 1, marks =>
      if separatorNext marks then none
      else
        match marks with
        | [] => none
        | ('"', _) :: rest => some ([], rest)
        | ('\\', _) :: ('\n', _) :: rest => do
            let (pieces, rest) ← doubleQuoted fuel rest
            return (.continued :: pieces, rest)
        | ('\\', _) :: (c, _) :: rest =>
            match escapedChar? c with
            | some e => do
                let (pieces, rest) ← doubleQuoted fuel rest
                return (.escaped e :: pieces, rest)
            | none => do
                if codeLength c = 0 then none
                else
                  let (e, rest) ← splitCode (codeLength c) rest
                  let (pieces, rest) ← doubleQuoted fuel rest
                  return (.escaped e :: pieces, rest)
        | (c, _) :: rest => do
            let (pieces, rest) ← doubleQuoted fuel rest
            return (.char c :: pieces, rest)

/-- The pieces of a scalar in single quotes, up to the closing one; two quotes stand for one. -/
def singleQuoted : (fuel : Nat) → Marks → Option (List Piece × Marks)
  | 0, _ => none
  | fuel + 1, marks =>
      if separatorNext marks then none
      else
        match marks with
        | [] => none
        | ('\'', _) :: ('\'', _) :: rest => do
            let (pieces, rest) ← singleQuoted fuel rest
            return (.char '\'' :: pieces, rest)
        | ('\'', _) :: rest => some ([], rest)
        | (c, _) :: rest => do
            let (pieces, rest) ← singleQuoted fuel rest
            return (.char c :: pieces, rest)

/-- A scalar in quotes: its text, whether it stays on one line, and what follows. -/
def quoted? (marks : Marks) : Option (String × Bool × Marks) :=
  let finish := fun ((pieces, rest) : List Piece × Marks) =>
    (String.ofList (fold {} pieces), !pieces.any fun p => p == .char '\n' || p == .continued, rest)
  match marks with
  | ('"', _) :: rest => (doubleQuoted (rest.length + 1) rest).map finish
  | ('\'', _) :: rest => (singleQuoted (rest.length + 1) rest).map finish
  | _ => none

/-! ## Plain scalars -/

/-- Whether a plain scalar can start here. -/
def plainNext (inFlow : Bool) : Marks → Bool
  | [] => false
  | (c, _) :: rest =>
      if c = '-' then !blankNext rest
      else if c = '?' || c = ':' then !inFlow && !blankNext rest
      else !(blankNext [(c, 0)] || flowMarks.contains c
        || ['#', '&', '*', '!', '|', '>', '\'', '"', '%', '@', Char.ofNat 0x60].contains c)

/-- The part of a plain scalar that stands on one line. It ends before a colon with a blank behind
it, before a comment, and inside brackets at their marks. -/
def plainLine (inFlow afterBlank : Bool) : Marks → Option (List Char × Marks)
  | [] => some ([], [])
  | (c, k) :: rest =>
      if c = '\n' || (c = '#' && afterBlank) || (c = ':' && blankNext rest)
          || (inFlow && flowMarks.contains c) then
        some ([], (c, k) :: rest)
      else if inFlow && c = ':' && oneNext ('?' :: flowMarks) rest then none
      else do
        let (cs, rest) ← plainLine inFlow (isBlank c) rest
        return (c :: cs, rest)

/-- The line without the blanks at its end. -/
def trimEnd (cs : List Char) : List Char :=
  (cs.reverse.dropWhile isBlank).reverse

/-- The line breaks in front of the next text, and this text. -/
def skipBreaks : Marks → Nat × Marks
  | [] => (0, [])
  | (c, k) :: rest =>
      if c = '\n' then
        let (n, rest) := skipBreaks rest
        (n + 1, rest)
      else if isBlank c then skipBreaks rest
      else (0, (c, k) :: rest)

/-- The further lines of a plain scalar; outside brackets they have to be indented. -/
def plainMore (inFlow : Bool) (indent : Nat) : (fuel : Nat) → Marks → Option (List Char × Marks)
  | 0, _ => none
  | fuel + 1, marks =>
      let (breaks, next) := skipBreaks marks
      match next with
      | [] => some ([], marks)
      | (c, k) :: _ =>
          if breaks = 0 || c = '#' || separatorNext next || (!inFlow && k < indent) then
            some ([], marks)
          else do
            let (line, rest) ← plainLine inFlow true next
            if line.isEmpty then some ([], marks)
            else
              let (more, rest) ← plainMore inFlow indent fuel rest
              return (({ breaks } : Gap).text ++ trimEnd line ++ more, rest)

def plain? (inFlow : Bool) (indent : Nat) (marks : Marks) : Option (String × Marks) :=
  if plainNext inFlow marks then do
    let (line, rest) ← plainLine inFlow false marks
    let (more, rest) ← plainMore inFlow indent (rest.length + 1) rest
    return (String.ofList (trimEnd line ++ more), rest)
  else none

end AppAssembly.Yaml
