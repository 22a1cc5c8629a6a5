import AppAssembly.Delegate
import AppAssembly.Ledger
import AppAssembly.Text.Lowercase

/-!
# Layers

A layer is one type of an inheritance chain as it was compiled: the members it puts on an
instance, its blocks merged with what they inherit, and its ledger.
-/

namespace AppAssembly

/-- What a layer puts under an attribute name. -/
inductive Content where
  | value (v : Value)
  /-- Forwards to a path of the instance. -/
  | delegate (d : Delegate)
  /-- Is built for every instance. -/
  | deferred

/-- An attribute, and the declaration behind it. -/
structure Member where
  content : Content
  origin : Origin

/-- A block after merging it with what it inherits. -/
structure EffectiveBlock where
  identity : String
  entries : Entries String Value
  mainType : Option Factory
  origin : Origin

/-- One type of an inheritance chain. Two layers are the same one exactly if their `id` is. -/
structure Layer where
  id : Nat
  name : String
  origin : Origin
  /-- The names of the direct bases. -/
  bases : List String
  /-- The blocks under their lower-case names. -/
  blocks : Entries String EffectiveBlock
  members : Entries String Member
  ledger : Ledger

namespace Layer

/-- The block with a name, in any case. -/
def block? (l : Layer) (name : String) : Option EffectiveBlock :=
  l.blocks.get? (Text.lowercase name)

def member? (l : Layer) (name : String) : Option Member :=
  l.members.get? name

end Layer

end AppAssembly
