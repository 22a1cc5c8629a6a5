import AppAssembly.Document.Yaml.Quoted

/-!
# Reading YAML

One document of block and flow collections, plain and quoted scalars and comments. Anchors, tags,
block scalars and directives are not read.
-/

namespace AppAssembly.Yaml

def skipBlanks : Marks → Marks
  | [] => []
  | (c, k) :: rest => if isBlank c then skipBlanks rest else (c, k) :: rest

/-- Skips blanks, comments and line breaks. A line of a block is indented by spaces only. -/
def toNext (inFlow inComment tabs : Bool) : Marks → Marks
  | [] => []
  | (c, k) :: rest =>
      if c = '\n' then toNext inFlow false inFlow rest
      else if inComment then toNext inFlow true tabs rest
      else if c = '#' then toNext inFlow true tabs rest
      else if c = ' ' || (c = '\t' && tabs) then toNext inFlow false tabs rest
      else (c, k) :: rest

/-- Skips to the next text of a flow collection. -/
def inFlow (marks : Marks) : Marks :=
  toNext true false true marks

/-- Skips the rest of a line, on which nothing more may stand, and the empty lines behind it. -/
def nextLine? (marks : Marks) : Option Marks :=
  match skipBlanks marks with
  | [] => some []
  | (c, k) :: rest =>
      if c = '\n' || c = '#' then some (toNext false false false ((c, k) :: rest)) else none

/-- The column of the next text, unless the document ends there. -/
def column? (marks : Marks) : Option Nat :=
  if separatorNext marks then none else marks.head?.map Prod.snd

/-- A scalar that isn't there. -/
def nothing : Node := .scalar (plain "")

/-- The text of a node, if it is a scalar. -/
def keyOf : Node → Option String
  | .scalar s => s.text?
  | _ => none

/-! ## Flow collections -/

mutual

def flowNode : (fuel : Nat) → Marks → Option (Node × Marks)
  | 0, _ => none
  | fuel + 1, marks =>
      match marks with
      | ('[', _) :: rest =>
          (flowItems fuel (inFlow rest)).map fun (items, rest) => (.list items, rest)
      | ('\x7b', _) :: rest =>
          (flowFields fuel (inFlow rest)).map fun (fields, rest) => (.table fields, rest)
      | _ =>
          match quoted? marks with
          | some (s, _, rest) => some (.scalar (.quoted s), rest)
          | none => (plain? true 0 marks).map fun (s, rest) => (.scalar (plain s), rest)

/-- A value behind a colon; without one there is nothing. -/
def flowValue : (fuel : Nat) → Marks → Option (Node × Marks)
  | 0, _ => none
  | fuel + 1, marks =>
      if oneNext [',', ']', '\x7d'] marks then some (nothing, marks) else flowNode fuel marks

/-- The elements of a list up to the closing bracket. An element may be a single field. -/
def flowItems : (fuel : Nat) → Marks → Option (List Node × Marks)
  | 0, _ => none
  | _ + 1, (']', _) :: rest => some ([], rest)
  | fuel + 1, marks => do
      let (node, rest) ← flowNode fuel marks
      let (node, rest) ←
        match inFlow rest with
        | (':', _) :: rest => do
            let (v, rest) ← flowValue fuel (inFlow rest)
            some (.table [(keyOf node, v)], inFlow rest)
        | rest => some (node, rest)
      match rest with
      | (',', _) :: rest => do
          let (nodes, rest) ← flowItems fuel (inFlow rest)
          return (node :: nodes, rest)
      | (']', _) :: rest => some ([node], rest)
      | _ => none

/-- The fields of a table up to the closing brace. A field may have no value. -/
def flowFields : (fuel : Nat) → Marks → Option (List (Option String × Node) × Marks)
  | 0, _ => none
  | _ + 1, ('\x7d', _) :: rest => some ([], rest)
  | fuel + 1, marks => do
      let (key, rest) ← flowNode fuel marks
      let (v, rest) ←
        match inFlow rest with
        | (':', _) :: rest => do
            let (v, rest) ← flowValue fuel (inFlow rest)
            some (v, inFlow rest)
        | rest => some (nothing, rest)
      match rest with
      | (',', _) :: rest => do
          let (fields, rest) ← flowFields fuel (inFlow rest)
          return ((keyOf key, v) :: fields, rest)
      | ('\x7d', _) :: rest => some ([(keyOf key, v)], rest)
      | _ => none

end

/-! ## Block collections -/

/-- A key that stands on one line, up to and with the colon behind it. -/
def blockKey? (marks : Marks) : Option (String × Marks) := do
  let (key, rest) ←
    match quoted? marks with
    | some (s, oneLine, rest) => if oneLine then some (s, skipBlanks rest) else none
    | none =>
        if plainNext false marks then
          (plainLine false false marks).map fun (cs, rest) => (String.ofList (trimEnd cs), rest)
        else none
  match rest with
  | (':', _) :: rest => if blankNext rest then some (key, rest) else none
  | _ => none

/-- Whether an element of a list starts here. -/
def dashNext : Marks → Bool
  | ('-', _) :: rest => blankNext rest
  | _ => false

/-- A scalar or flow collection, after which the line ends. -/
def inlineNode (indent : Nat) (marks : Marks) : Option (Node × Marks) := do
  let (node, rest) ←
    if oneNext ['[', '\x7b'] marks then flowNode (2 * marks.length + 2) marks
    else
      match quoted? marks with
      | some (s, _, rest) => some (.scalar (.quoted s), rest)
      | none => (plain? false indent marks).map fun (s, rest) => (.scalar (plain s), rest)
  return (node, ← nextLine? rest)

mutual

/-- The node that starts here, whose lines are indented by `indent` at least. -/
def blockNode (indent : Nat) : (fuel : Nat) → Marks → Option (Node × Marks)
  | 0, _ => none
  | fuel + 1, marks =>
      match column? marks with
      | none => some (nothing, marks)
      | some k =>
          if k < indent then some (nothing, marks)
          else if dashNext marks then
            (blockItems k fuel marks).map fun (items, rest) => (.list items, rest)
          else if (blockKey? marks).isSome then
            (blockFields k fuel marks).map fun (fields, rest) => (.table fields, rest)
          else inlineNode indent marks

/-- The elements of a list whose dashes stand in a column. -/
def blockItems (column : Nat) : (fuel : Nat) → Marks → Option (List Node × Marks)
  | 0, _ => none
  | fuel + 1, marks =>
      if column? marks = some column && dashNext marks then do
        let rest := skipBlanks (marks.drop 1)
        let rest := if oneNext ['\n', '#'] rest then toNext false false false rest else rest
        let (node, rest) ← blockNode (column + 1) fuel rest
        let (nodes, rest) ← blockItems column fuel rest
        return (node :: nodes, rest)
      else some ([], marks)

/-- The fields of a table whose keys stand in a column. A list that is a value may stand in the
same column. -/
def blockFields (column : Nat) : (fuel : Nat) → Marks → Option (List (Option String × Node) × Marks)
  | 0, _ => none
  | fuel + 1, marks =>
      if column? marks = some column then do
        let (key, rest) ← blockKey? marks
        let rest := skipBlanks rest
        let (v, rest) ←
          if rest.isEmpty || oneNext ['\n', '#'] rest then
            let rest := toNext false false false rest
            if column? rest = some column && dashNext rest then
              (blockItems column fuel rest).map fun (items, rest) => (.list items, rest)
            else blockNode (column + 1) fuel rest
          else if dashNext rest then none
          else inlineNode (column + 1) rest
        let (fields, rest) ← blockFields column fuel rest
        return ((some key, v) :: fields, rest)
      else some ([], marks)

end

/-! ## Documents -/

/-- Whether a character may occur in a document. -/
def isAllowed (c : Char) : Bool :=
  let n := c.toNat
  c = '\t' || c = '\n' || c = '\r' || (0x20 ≤ n && n ≤ 0x7E) || n = 0x85
    || (0xA0 ≤ n && n ≤ 0xFFFD && n ≠ 0xFEFF) || 0x10000 ≤ n

/-- Makes every line end with the same character. -/
def joinLineEnds : List Char → List Char
  | '\r' :: '\n' :: rest => '\n' :: joinLineEnds rest
  | '\r' :: rest => '\n' :: joinLineEnds rest
  | c :: rest => c :: joinLineEnds rest
  | [] => []

/-- Whether the text ends here, perhaps behind a line of three dots. -/
def atEnd (marks : Marks) : Bool :=
  match marks with
  | ('.', 0) :: ('.', _) :: ('.', _) :: rest => nextLine? rest == some []
  | _ => marks.isEmpty

/-- The root node. Behind a line of dashes it may start on the same line. -/
def rootNode (marks : Marks) : Option (Node × Marks) :=
  let fuel := 2 * marks.length + 2
  match marks with
  | ('-', 0) :: ('-', _) :: ('-', _) :: rest =>
      if !blankNext rest then blockNode 0 fuel marks
      else
        match nextLine? rest with
        | some rest => blockNode 0 fuel rest
        | none => inlineNode 0 (skipBlanks rest)
  | _ => blockNode 0 fuel marks

/-- The node that a whole text stands for. -/
def read? (text : String) : Option Node :=
  let cs := match text.toList with
    | c :: rest => if c.toNat = 0xFEFF then rest else c :: rest
    | [] => []
  if !cs.all isAllowed then none
  else
    let marks := toNext false false false (markFrom 0 (joinLineEnds cs))
    match rootNode marks with
    | some (node, rest) => if atEnd rest then some node else none
    | none => none

end AppAssembly.Yaml
