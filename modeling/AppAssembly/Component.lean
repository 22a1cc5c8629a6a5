import AppAssembly.Act
import AppAssembly.Factory.Workshop

/-!
# Deferred objects

Some attributes exist only once an instance does: a components block becomes one group object that
holds all its components, and a block nothing else handles becomes an object built by its main
type. Both are described here and built in a workshop.
-/

namespace AppAssembly

/-- One entry of a group: a component to build, or a value that is taken as it is. -/
inductive ComponentSource where
  | factory (f : Factory)
  | value (v : Value)

/-- Factories are called, all other values are taken as they are. -/
def ComponentSource.ofValue : Value → ComponentSource
  | .factory f => .factory f
  | v => .value v

/-- A components block, built into one group object. -/
structure ComponentGroup where
  identity : String
  entries : Entries String ComponentSource
  origin : Origin

/-- A block that is built into a single object by its main type. -/
structure CustomObject where
  /-- The attribute that holds the object. -/
  identity : String
  /-- The name of the block as it was written. -/
  block : String
  factory : Factory
  kwargs : Kwargs
  origin : Origin

/-- Something that is built for every instance. -/
inductive Deferred where
  | components (group : ComponentGroup)
  | custom (object : CustomObject)

/-- Keyword arguments as a message shows them. -/
def Kwargs.describe (kwargs : Kwargs) : String :=
  "\x7b" ++ ", ".intercalate (kwargs.map fun (key, v) => key ++ "=" ++ v.describe) ++ "\x7d"

/-- A factory and where it was defined. -/
def Factory.calling (f : Factory) : String :=
  match f.location with
  | some l => f.name ++ " at " ++ l.display
  | none => f.name

/-- Calls a factory on behalf of a declaration, which a failure is blamed on. -/
def Factory.buildFor (f : Factory) (make : Builder) (name : String) (kwargs : Kwargs)
    (origin : Origin) : Act Workshop Value := fun w =>
  match f.construct kwargs make (w.note (.build name)) with
  | (.ok v, w) => (.ok v, w)
  | (.error fault, w) =>
      (.error (.developer
        (.construction name f.calling kwargs.describe f.signature fault.message origin)), w)

/-- A tag that no object has yet. -/
def Act.newTag : Act Workshop Tag := fun w =>
  let (tag, w) := w.newTag
  (.ok tag, w)

namespace ComponentGroup

/-- The value of one entry. -/
def buildEntry (g : ComponentGroup) (make : Builder) :
    String × ComponentSource → Act Workshop (String × Value)
  | (name, .factory f) => do
      let v ← f.buildFor make (g.identity ++ "." ++ name) [] g.origin
      return (name, v)
  | (name, .value v) => return (name, v)

/-- Builds the components in order and puts them into a group object. -/
def materialize (g : ComponentGroup) (make : Builder) : Act Workshop Value := do
  let attrs ← Act.mapList g.entries (g.buildEntry make)
  let tag ← Act.newTag
  return .object ⟨tag, g.identity, attrs, []⟩

end ComponentGroup

/-- Builds the object with the entries of its block as keyword arguments. -/
def CustomObject.materialize (c : CustomObject) (make : Builder) : Act Workshop Value :=
  c.factory.buildFor make c.block c.kwargs c.origin

namespace Deferred

/-- The attribute that holds the object. -/
def identity : Deferred → String
  | components group => group.identity
  | custom object => object.identity

def origin : Deferred → Origin
  | components group => group.origin
  | custom object => object.origin

def materialize (item : Deferred) (make : Builder := Recipe.make) : Act Workshop Value :=
  match item with
  | components group => group.materialize make
  | custom object => object.materialize make

end Deferred

end AppAssembly
