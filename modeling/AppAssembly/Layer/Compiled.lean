import AppAssembly.Entries.FirstBy
import AppAssembly.Layer.Basic

/-!
# Compiled types

A compiled type is its own layer followed by the layers of its ancestors, the most derived one
first. Whatever is asked of it, the first layer that mentions a name decides, also if all it says
is that there is nothing.
-/

namespace AppAssembly

/-- A compiled type: its own layer and its ancestors' layers, nearest first. -/
structure CompiledType where
  own : Layer
  ancestors : List Layer

/-- Who added an attribute and, if a nearer layer did that, who removed or replaced it. -/
structure Provenance where
  addedBy : Option Origin := none
  removedBy : Option Origin := none
deriving DecidableEq, Repr

namespace CompiledType

/-- All layers, most derived first. -/
def layers (t : CompiledType) : List Layer :=
  t.own :: t.ancestors

def name (t : CompiledType) : String :=
  t.own.name

/-- Whether the other type's own layer is among this type's layers. -/
def inheritsFrom (t other : CompiledType) : Bool :=
  t.layers.any fun layer => layer.id == other.own.id

/-! ## Members and blocks -/

/-- The first member with a name along some layers, with the layer it comes from. -/
def memberAlong (layers : List Layer) (name : String) : Option (Layer × Member) :=
  layers.findSome? fun layer => (layer.member? name).map fun member => (layer, member)

/-- The winning member with a name, and the layer it comes from. -/
def member? (t : CompiledType) (name : String) : Option (Layer × Member) :=
  memberAlong t.layers name

/-- The nearest block with a name, in any case. -/
def block? (t : CompiledType) (name : String) : Option EffectiveBlock :=
  t.layers.findSome? fun layer => layer.block? name

/-- The names of all members, each once. -/
def memberNames (t : CompiledType) : List String :=
  firstBy id (t.layers.flatMap fun layer => layer.members.keys)

/-! ## What the ledgers say -/

/-- The installer blocks that count: those up to the first that does not extend. -/
def installerBlocks : List Layer → List InstallerBlock
  | [] => []
  | layer :: rest =>
      match layer.ledger.installers with
      | some block => if block.extend then block :: installerBlocks rest else [block]
      | none => installerBlocks rest

/-- What the blocks say about each identity, in order: a path, or that nothing is installed. -/
def installerMentions (blocks : List InstallerBlock) : List (String × Option String × Origin) :=
  blocks.flatMap fun block =>
    block.entries.map fun (identity, path) => (identity, path, block.origin)

def installers (t : CompiledType) : List Installer :=
  (firstBy Prod.fst (installerMentions (installerBlocks t.layers))).filterMap
    fun (identity, path, origin) => path.map fun path => ⟨identity, path, origin⟩

def requirements (t : CompiledType) : List Requirement :=
  (firstBy Requirement.identity (t.layers.flatMap fun layer => layer.ledger.requirements)).filter
    fun requirement => !requirement.isSuppression

def checkers (t : CompiledType) : List Checker :=
  (firstBy Checker.identity (t.layers.flatMap fun layer => layer.ledger.checkers)).filter
    Checker.active

/-- The attributes that have to be callable. -/
def methods (t : CompiledType) : List Method :=
  firstBy Method.identity (t.layers.flatMap fun layer => layer.ledger.methods)

/-- Whether the winning member with a name is built for every instance and belongs to a layer. -/
def defers (t : CompiledType) (layer : Layer) (name : String) : Bool :=
  match t.member? name with
  | some (owner, ⟨.deferred, _⟩) => owner.id == layer.id
  | _ => false

/-- What has to be built for an instance. An object is built from the layer that owns the winning
member of its name. -/
def deferred (t : CompiledType) : List Deferred :=
  let recorded := t.layers.flatMap fun layer => layer.ledger.deferred.map fun item => (layer, item)
  (firstBy (fun (_, item) => item.identity) recorded).filterMap
    fun (layer, item) => if t.defers layer item.identity then some item else none

/-- Who touched a name along some layers, up to the first that added it. -/
def provenanceAlong (name : String) : List Layer → Provenance
  | [] => {}
  | layer :: rest =>
      let hidden := (layer.ledger.removedBy? name).or (layer.ledger.replacedBy? name)
      match layer.ledger.addedBy? name with
      | some origin => ⟨some origin, hidden⟩
      | none =>
          let further := provenanceAlong name rest
          ⟨further.addedBy, hidden.or further.removedBy⟩

/-- Who added a name and, if it was removed or replaced later, who did that. -/
def provenance (t : CompiledType) (name : String) : Provenance :=
  provenanceAlong name t.layers

end CompiledType

end AppAssembly
