import AppAssembly.Entries.Sorted
import AppAssembly.Handler.BuiltIn

/-!
# Registered handlers

Handlers are found by the lower-case name of a block, and every such name has at most one. The
blocks of a type are dispatched in the order of these names.
-/

namespace AppAssembly

/-- Handlers under lower-case names, sorted by name. -/
structure HandlerRegistry where
  handlers : Entries String Handler

namespace HandlerRegistry

def empty : HandlerRegistry := ⟨[]⟩

/-- Puts a handler under its lower-case name. -/
def insert (r : HandlerRegistry) (h : Handler) : HandlerRegistry :=
  ⟨Entries.insertSorted (Text.lowercase h.name) h r.handlers⟩

def builtIn : HandlerRegistry :=
  Handler.builtIn.foldl insert empty

/-- The handler for a block name, in any case. -/
def find? (r : HandlerRegistry) (name : String) : Option Handler :=
  r.handlers.get? (Text.lowercase name)

/-- Whether a block name has a handler. -/
def contains (r : HandlerRegistry) (name : String) : Bool :=
  (r.find? name).isSome

/-- Adds a handler for a name that has none yet. -/
def register (r : HandlerRegistry) (h : Handler) : Except Error HandlerRegistry :=
  if r.contains h.name then .error (.developer (.handlerTwice (Text.lowercase h.name)))
  else .ok (r.insert h)

/-- The names that have a handler, in order. -/
def names (r : HandlerRegistry) : List String :=
  r.handlers.keys

end HandlerRegistry

end AppAssembly
