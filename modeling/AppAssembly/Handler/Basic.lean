import AppAssembly.Layer.Compiled
import AppAssembly.Spec.Block

/-!
# Block handlers

A handler turns the blocks of one name into attributes of the type. It sees what the block
declares and what the ancestors declare under the same name, and writes down in the ledger what it
did.
-/

namespace AppAssembly

/-- What a type inherits under the name of a block. -/
structure InheritedBlock where
  entries : Entries String Value := []
  mainType : Option Factory := none

def InheritedBlock.isEmpty (i : InheritedBlock) : Bool :=
  i.entries.isEmpty && i.mainType.isNone

/-- Attributes in the order in which they are put on the type. -/
abbrev Products := List (String × Content)

/-- A block in the place where it is declared. -/
structure Declaration where
  typeName : String
  /-- The layer that is being compiled. -/
  layer : Nat
  block : Block
  origin : Origin
  inherited : InheritedBlock
  /-- The layers of all ancestors, nearest first. -/
  ancestors : List Layer

/-- What answers to the blocks of one name. -/
structure Handler where
  name : String
  /-- Whether a block may drop what it inherits. -/
  extendable : Bool := true
  /-- Whether a block may null out what it inherits. -/
  nullable : Bool := true
  handle : Declaration → Ledger → Except Error (Products × Ledger)

namespace Declaration

/-- Nulls for the inherited entries, if the block asks for them. -/
def nulls (d : Declaration) : Entries String Value :=
  if d.block.nullifiesInherited then d.inherited.entries.mapValues fun _ => .null else []

/-- The declared entries over the nulls the block asks for. -/
def entriesOverNulls (d : Declaration) : Entries String Value :=
  d.nulls.overlay d.block.entries

/-- Whether a null under a key hides something: an entry inherited by the same block, or the
member the ancestors have under that name. -/
def overridesInherited (d : Declaration) (key : String) : Bool :=
  let entry :=
    match d.inherited.entries.get? key with
    | some v => !v.isNull
    | none => false
  let member :=
    match CompiledType.memberAlong d.ancestors key with
    | some (_, ⟨.value .null, _⟩) => false
    | some _ => true
    | none => false
  entry || member

/-- What becomes of a null: if it hides something, a callable that refuses to be called. -/
def nullContent (d : Declaration) (key : String) : Content :=
  if d.overridesInherited key then
    .value (.callable (.notImplemented d.layer key d.origin))
  else .value .null

/-- The keys of nulls that hide something. -/
def suppressedKeys (d : Declaration) (entries : Entries String Value) : List String :=
  Entries.keys (entries.filter fun (key, v) => v.isNull && d.overridesInherited key)

/-- The complaint about an entry of the wrong kind. -/
def badEntry (d : Declaration) (key expected : String) (v : Value) : Error :=
  .developer (.badEntry d.block.identity key expected v.kind v.describe d.origin)

end Declaration

end AppAssembly
