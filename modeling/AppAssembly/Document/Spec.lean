import AppAssembly.Document.Node
import AppAssembly.Error.Basic

/-!
# Spec documents

A document lists types in the order in which they are compiled. A record may also be written as
the list of its fields. A field that occurs twice is refused and an unknown one is ignored; in
tables, a repeated key keeps its first place and its last value.
-/

namespace AppAssembly

/-- One type as a document describes it. -/
structure TypeDocument where
  name : String
  /-- The names of the bases. -/
  bases : List String := []
  /-- The entries of the blocks, flags included. -/
  blocks : Entries String (Entries String RawValue) := []
  /-- The members declared by hand. -/
  members : Entries String RawValue := []
  location : Option String := none

/-- The types of a document. -/
structure SpecDocument where
  types : List TypeDocument := []

namespace SpecDocument

/-! ## Reading nodes -/

/-- How a format reads nodes. -/
structure Rules where
  /-- How deep lists and tables may be nested; `none` if the format itself sees to that. -/
  levels : Option Nat
  /-- Whether a record written as a list may be followed by further elements. -/
  surplus : Bool

/-- The levels that are left inside a list or table. -/
def enter : Option Nat → Except String (Option Nat)
  | none => .ok none
  | some 0 => .error "nested too deeply"
  | some (n + 1) => .ok (some n)

def readText : Node → Except String String
  | .scalar ⟨some s, _, _, _⟩ => .ok s
  | _ => .error "expected a text"

def readOptionalText : Node → Except String (Option String)
  | .scalar s => if s.absent then .ok none else (readText (.scalar s)).map some
  | _ => .error "expected a text"

def readList {α : Type} (levels : Option Nat) (read : Option Nat → Node → Except String α) :
    Node → Except String (List α)
  | .list items => do
      let levels ← enter levels
      items.mapM (read levels)
  | .scalar s => if s.empty then .ok [] else .error "expected a list"
  | .table _ => .error "expected a list"

/-- A field of a table; its key has to be a text. -/
def readField {α : Type} (read : Node → Except String α) :
    Option String × Node → Except String (String × α)
  | (some key, node) => do return (key, ← read node)
  | (none, _) => .error "expected a text as key"

def readTable {α : Type} (levels : Option Nat) (read : Option Nat → Node → Except String α) :
    Node → Except String (Entries String α)
  | .table fields => do
      let levels ← enter levels
      let pairs ← fields.mapM (readField (read levels))
      return Entries.ofPairs pairs
  | .scalar s => if s.empty then .ok [] else .error "expected a table"
  | .list _ => .error "expected a table"

mutual

/-- A value. The keys of its tables are sorted, and of repeated ones the last counts. -/
def readValue (levels : Option Nat) : Node → Except String RawValue
  | .scalar s =>
      match s.value? with
      | some v => .ok v
      | none => .error "not a value"
  | .list items => do
      let levels ← enter levels
      return .list (← readValues levels items)
  | .table fields => do
      let levels ← enter levels
      return .table (Entries.sorted (← readFields levels fields))

def readValues (levels : Option Nat) : List Node → Except String (List RawValue)
  | [] => .ok []
  | node :: rest => do
      let v ← readValue levels node
      return v :: (← readValues levels rest)

def readFields (levels : Option Nat) :
    List (Option String × Node) → Except String (List (String × RawValue))
  | [] => .ok []
  | (none, _) :: _ => .error "expected a text as key"
  | (some key, node) :: rest => do
      let v ← readValue levels node
      return (key, v) :: (← readFields levels rest)

end

/-- The known fields among those of a table, which may occur once each. -/
def knownFields (names : List String) (seen : Entries String Node) :
    List (Option String × Node) → Except String (Entries String Node)
  | [] => .ok seen
  | (none, _) :: _ => .error "expected a text as key"
  | (some key, node) :: rest =>
      if key ∉ names then knownFields names seen rest
      else if seen.contains key then .error ("duplicate field " ++ key)
      else knownFields names (seen.insert key node) rest

/-- The fields of a record with the given names, written as a table or as a list. -/
def readRecord (rules : Rules) (levels : Option Nat) (names : List String) :
    Node → Except String (Option Nat × Entries String Node)
  | .table fields => do
      let levels ← enter levels
      return (levels, ← knownFields names [] fields)
  | .list items => do
      let levels ← enter levels
      if names.length < items.length && !rules.surplus then .error "too many elements"
      else return (levels, names.zip items)
  | .scalar s => if s.empty then .ok (levels, []) else .error "expected a table"

/-- Reads a field, or gives a default if it is missing. -/
def readOr {α : Type} (fields : Entries String Node) (name : String) (missing : α)
    (read : Node → Except String α) : Except String α :=
  match fields.get? name with
  | some node => read node
  | none => .ok missing

/-- A type. Only its name has to be there. -/
def readType (rules : Rules) (levels : Option Nat) (node : Node) : Except String TypeDocument := do
  let (levels, fields) ←
    readRecord rules levels ["name", "extends", "blocks", "members", "location"] node
  let some name := fields.get? "name" | .error "missing field name"
  let name ← readText name
  let bases ← readOr fields "extends" [] (readList levels fun _ => readText)
  let blocks ← readOr fields "blocks" [] (readTable levels fun levels => readTable levels readValue)
  let members ← readOr fields "members" [] (readTable levels readValue)
  let location ← readOr fields "location" none readOptionalText
  return { name, bases, blocks, members, location }

def ofNode (rules : Rules) (node : Node) : Except String SpecDocument := do
  let (levels, fields) ← readRecord rules rules.levels ["types"] node
  let types ← readOr fields "types" [] (readList levels (readType rules))
  return { types }

/-! ## Comparing and writing -/

/-- Whether two tables have the same fields, in any order. -/
def sameTable {α : Type} (same : α → α → Bool) (a b : Entries String α) : Bool :=
  a.length == b.length && a.all fun (key, v) => (b.get? key).any (same v)

def sameType (a b : TypeDocument) : Bool :=
  a.name == b.name && a.bases == b.bases && a.location == b.location
    && sameTable (sameTable RawValue.same) a.blocks b.blocks
    && sameTable RawValue.same a.members b.members

def same (a b : SpecDocument) : Bool :=
  a.types.length == b.types.length && (a.types.zip b.types).all fun (a, b) => sameType a b

def typeTable (t : TypeDocument) : RawValue :=
  .table [("name", .str t.name), ("extends", .list (t.bases.map .str)),
    ("blocks", .table (t.blocks.mapValues .table)), ("members", .table t.members),
    ("location", (t.location.map .str).getD .null)]

def toRaw (d : SpecDocument) : RawValue :=
  .table [("types", .list (d.types.map typeTable))]

/-- The names of the types, in order. -/
def typeNames (d : SpecDocument) : List String :=
  d.types.map TypeDocument.name

end SpecDocument

end AppAssembly
