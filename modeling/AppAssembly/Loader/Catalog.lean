import AppAssembly.Layer.Compiled

/-!
# Catalogs and type registries

A document refers to factories and callables by the names they have in a catalog, and to types by
the names they are registered under. A name stands for the factory or callable that was added
last; a type is registered once.
-/

namespace AppAssembly

/-- The factories and callables that documents may refer to. -/
structure Catalog where
  factories : Entries String Factory := []
  callables : Entries String Callable := []

namespace Catalog

/-- Adds a factory under its own name. -/
def addFactory (c : Catalog) (f : Factory) : Catalog :=
  { c with factories := c.factories.insert f.name f }

/-- Adds a callable under its own name. -/
def addCallable (c : Catalog) (callable : Callable) : Catalog :=
  { c with callables := c.callables.insert callable.name callable }

def factory (c : Catalog) (name : String) : Except Error Factory :=
  match c.factories.get? name with
  | some f => .ok f
  | none => .error (.config (.unknownFactory name))

def callable (c : Catalog) (name : String) : Except Error Callable :=
  match c.callables.get? name with
  | some callable => .ok callable
  | none => .error (.config (.unknownCallable name))

end Catalog

/-- Compiled types by name, in the order in which they were registered. -/
structure TypeRegistry where
  types : Entries String CompiledType := []

namespace TypeRegistry

def names (r : TypeRegistry) : List String :=
  r.types.keys

def contains (r : TypeRegistry) (name : String) : Bool :=
  r.types.contains name

def get (r : TypeRegistry) (name : String) : Except Error CompiledType :=
  match r.types.get? name with
  | some t => .ok t
  | none => .error (.config (.unknownType name r.names))

/-- Registers a type under its name, which must be new. -/
def register (r : TypeRegistry) (t : CompiledType) : Except Error TypeRegistry :=
  if r.contains t.name then .error (.config (.alreadyRegistered t.name))
  else .ok ⟨r.types ++ [(t.name, t)]⟩

end TypeRegistry

end AppAssembly
