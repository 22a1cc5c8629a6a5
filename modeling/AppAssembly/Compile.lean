import AppAssembly.Claims
import AppAssembly.Handler.Registry
import AppAssembly.Layer.Linearization
import AppAssembly.Spec.TypeSpec

/-!
# Compiling a type

A specification and the compiled types it extends become a new layer on top of its ancestors'
layers. Blocks with a handler come first, in the order of the handlers; every other block becomes
a custom object; members declared by hand come last and may replace what an ancestor generated.
-/

namespace AppAssembly

namespace Compile

/-! ## What a block inherits -/

/-- What the bases declare under a block name. The keys are those that a direct base shows; the
value of each comes from the nearest ancestor whose block has it. -/
def inheritedBlock (bases : List CompiledType) (ancestors : List Layer) (name : String) :
    InheritedBlock :=
  let shown := bases.filterMap fun base => base.block? name
  let owned := ancestors.filterMap fun layer => layer.block? name
  -- these blocks are merged already, so a key may be there by inheritance alone
  let keys := firstBy id (shown.flatMap fun block => block.entries.keys)
  { entries := keys.filterMap fun key =>
      (owned.findSome? fun block => block.entries.get? key).map fun v => (key, v)
    mainType :=
      if shown.any fun block => block.mainType.isSome then
        owned.findSome? fun block => block.mainType
      else none }

/-! ## The blocks of a type -/

/-- Checks that all flags could be read and that no two blocks differ only by case. -/
def checkBlocks (typeName : String) (seen : Entries String String) :
    List Block → Except Error Unit
  | [] => .ok ()
  | b :: rest =>
      let name := Text.lowercase b.identity
      if !b.invalid.isEmpty then
        .error (.developer (.invalidFlags b.identity b.invalid (b.origin typeName)))
      else
        match seen.get? name with
        | some first =>
            .error (.developer (.sameBlockName typeName first b.identity (b.origin typeName)))
        | none => checkBlocks typeName (seen.insert name b.identity) rest

/-- The blocks that have a handler, in the order in which they are dispatched. -/
def knownBlocks (registry : HandlerRegistry) (blocks : List Block) : List Block :=
  (blocks.filter fun b => registry.contains b.identity).mergeSort
    fun a b => decide (Text.lowercase a.identity ≤ Text.lowercase b.identity)

/-- The blocks without a handler, in the order in which they are dispatched. -/
def customBlocks (registry : HandlerRegistry) (blocks : List Block) : List Block :=
  (blocks.filter fun b => !registry.contains b.identity).mergeSort
    fun a b => decide (a.identity ≤ b.identity)

/-! ## Filling a layer -/

/-- A layer while it is being compiled. -/
structure Draft where
  blocks : Entries String EffectiveBlock := []
  members : Entries String Member := []
  ledger : Ledger
  claims : Claims

/-- Records the requirements of the callables among some products. -/
def recordMarkers (origin : Origin) (products : Products) (ledger : Ledger) : Ledger :=
  products.foldl (fun ledger (name, content) =>
    match content with
    | .value v => ledger.recordMarker v name origin
    | _ => ledger) ledger

/-- Puts what a block produced on the type, unless a name is taken. -/
def Draft.place (d : Draft) (origin : Origin) (products : Products) : Except Error Draft := do
  let names := products.map Prod.fst
  d.claims.ensureFree origin names
  return { d with
    members := d.members.overlay (products.map fun (name, content) => (name, ⟨content, origin⟩))
    ledger := (recordMarkers origin products d.ledger).recordAdded origin names
    claims := d.claims.generated names origin }

/-- What all blocks of a type have in common. -/
structure Site where
  typeName : String
  /-- The identity of the new layer. -/
  layer : Nat
  bases : List CompiledType
  ancestors : List Layer

/-- A block in its place on the type. -/
def Site.declaration (s : Site) (b : Block) : Declaration where
  typeName := s.typeName
  layer := s.layer
  block := b
  origin := b.origin s.typeName
  inherited := inheritedBlock s.bases s.ancestors b.identity
  ancestors := s.ancestors

/-- Refuses flags that make no sense for a handler. -/
def checkFlags (h : Handler) (b : Block) (origin : Origin) : Except Error Unit :=
  if b.extend == some false && !h.extendable then
    .error (.developer (.cannotExtend b.identity origin))
  else if b.nullifiesInherited && !h.nullable then
    .error (.developer (.cannotNullify b.identity origin))
  else .ok ()

/-- The block as later types inherit it. -/
def effectiveBlock (d : Declaration) (keepsInherited : Bool) : EffectiveBlock where
  identity := d.block.identity
  entries :=
    if keepsInherited then d.inherited.entries.overlay d.block.entries else d.block.entries
  mainType :=
    d.block.mainType.or (if keepsInherited then d.inherited.mainType else none)
  origin := d.origin

def Draft.addKnown (draft : Draft) (h : Handler) (d : Declaration) : Except Error Draft := do
  checkFlags h d.block d.origin
  let (products, ledger) ← h.handle d draft.ledger
  let draft ← { draft with ledger }.place d.origin products
  let block := effectiveBlock d (!h.extendable || d.block.mergesInherited)
  return { draft with blocks := draft.blocks.insert (Text.lowercase d.block.identity) block }

/-- The custom object that a block describes, if it has a main type. -/
def customObject? (d : Declaration) : Option CustomObject :=
  let keepsEntries := d.block.mergesInherited && !d.block.nullifiesInherited
  let mainType :=
    d.block.mainType.or (if d.block.mergesInherited then d.inherited.mainType else none)
  mainType.map fun factory =>
    { identity := Text.lowercase d.block.identity
      block := d.block.identity
      factory
      kwargs :=
        if keepsEntries then d.inherited.entries.overlay d.block.entries else d.block.entries
      origin := d.origin }

/-- Compiles a block without handler into a custom object. -/
def Draft.addCustom (draft : Draft) (d : Declaration) : Except Error Draft :=
  match customObject? d with
  | none => .error (.developer (.missingMainType d.block.identity d.origin))
  | some object => do
      let ledger := draft.ledger.recordFactory object.factory object.identity d.origin
      let draft ← { draft with ledger }.place d.origin [(object.identity, .deferred)]
      let block : EffectiveBlock := ⟨object.block, object.kwargs, some object.factory, d.origin⟩
      return { draft with
        ledger := draft.ledger.recordCustom object
        blocks := draft.blocks.insert object.identity block }

/-- Compiles the blocks that have a handler. -/
def Draft.addAllKnown (registry : HandlerRegistry) (site : Site) (draft : Draft) :
    List Block → Except Error Draft
  | [] => .ok draft
  | b :: rest => do
      let draft ←
        match registry.find? b.identity with
        | some h => draft.addKnown h (site.declaration b)
        | none => .ok draft
      draft.addAllKnown registry site rest

def Draft.addAllCustom (site : Site) (draft : Draft) : List Block → Except Error Draft
  | [] => .ok draft
  | b :: rest => do
      let draft ← draft.addCustom (site.declaration b)
      draft.addAllCustom site rest

/-- Puts the members declared by hand on the type. -/
def Draft.addByHand (draft : Draft) (spec : TypeSpec) : Draft :=
  { draft with
    members := draft.members.overlay
      (spec.members.map fun (name, v) => (name, ⟨.value v, spec.memberOrigin name⟩))
    ledger := spec.members.foldl
      (fun ledger (name, v) => ledger.recordMarker v name (spec.memberOrigin name)) draft.ledger }

/-- The members declared by hand over something an ancestor's block added. -/
def replacedNames (spec : TypeSpec) (ancestors : List Layer) (ledger : Ledger) : List String :=
  spec.members.keys.filter fun name =>
    (ledger.addedBy? name).isNone &&
      ancestors.any fun layer => (layer.ledger.addedBy? name).isSome

/-- The draft that compilation starts from: the names declared by hand are claimed. -/
def Draft.start (spec : TypeSpec) : Draft where
  ledger := spec.ledger
  claims := Claims.byHand [] (spec.members.keys.map fun name => (name, spec.memberOrigin name))

end Compile

open Compile in
/-- Compiles a specification on top of its bases into a new layer with the given identity. -/
def compile (registry : HandlerRegistry) (layer : Nat) (spec : TypeSpec)
    (bases : List CompiledType) : Except Error CompiledType := do
  let ancestors ← ancestorsOf spec.name bases
  checkBlocks spec.name [] spec.blocks
  let site : Site := ⟨spec.name, layer, bases, ancestors⟩
  let draft ← (Draft.start spec).addAllKnown registry site (knownBlocks registry spec.blocks)
  let draft ← draft.addAllCustom site (customBlocks registry spec.blocks)
  -- last, so that what is written by hand wins over what ancestors' blocks generated
  let draft := draft.addByHand spec
  let replaced := replacedNames spec ancestors draft.ledger
  return {
    own :=
      { id := layer
        name := spec.name
        origin := spec.origin
        bases := bases.map CompiledType.name
        blocks := draft.blocks
        members := draft.members
        ledger := (draft.ledger.recordReplaced spec.origin replaced).normalise }
    ancestors }

end AppAssembly
