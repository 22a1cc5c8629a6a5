import AppAssembly.Value.Describe

/-!
# Blocks

A block is a named declaration with ordered entries. Keys that start with an underscore are no
entries but control flags; one that can't be read is remembered and makes the type invalid.
-/

namespace AppAssembly

/-- What a control flag sets. -/
inductive Flag where
  | extend
  | nullifyInherited
  | mainType
  | location
deriving DecidableEq, Repr

/-- The flag under a key. Two of them have a second spelling. -/
def Flag.ofKey? : String → Option Flag
  | "_extend" | "_extends" => some extend
  | "_nullify_inherited" => some nullifyInherited
  | "_main" | "_main_type" => some mainType
  | "_location" => some location
  | _ => none

/-- A named declaration: entries in order, and control flags that may be unset. -/
structure Block where
  identity : String
  entries : Entries String Value := []
  extend : Option Bool := none
  nullifyInherited : Option Bool := none
  mainType : Option Factory := none
  location : Option Location := none
  /-- The flags that could not be read. -/
  invalid : List String := []

namespace Block

/-- Whether inherited entries are kept, which they are by default. -/
def mergesInherited (b : Block) : Bool :=
  b.extend.getD true

/-- Whether inherited entries are nulled out, which they aren't by default. -/
def nullifiesInherited (b : Block) : Bool :=
  b.nullifyInherited.getD false

/-- Remembers a flag that could not be read. -/
def reject (b : Block) (problem : String) : Block :=
  { b with invalid := b.invalid ++ [problem] }

def setFlag (b : Block) (key : String) (v : Value) : Block :=
  match Flag.ofKey? key, v with
  | some .extend, .bool on => { b with extend := some on }
  | some .nullifyInherited, .bool on => { b with nullifyInherited := some on }
  | some .mainType, .factory f => { b with mainType := some f }
  | some .location, .str text => { b with location := some (Location.parse text) }
  | some _, v =>
      b.reject ("flag '" ++ key ++ "' can't be set to " ++ v.describe ++ " (" ++ v.kind ++ ")")
  | none, _ => b.reject ("unknown control flag '" ++ key ++ "'")

/-- Whether a key belongs to a control flag. -/
def isReserved (key : String) : Bool :=
  key.toList.head? == some '_'

/-- Adds an entry or sets a flag, depending on the key. -/
def entry (b : Block) (key : String) (v : Value) : Block :=
  if isReserved key then b.setFlag key v else { b with entries := b.entries.insert key v }

/-- The block as a declaration on a type. -/
def origin (b : Block) (typeName : String) : Origin :=
  .declaration typeName b.identity b.location

end Block

end AppAssembly
