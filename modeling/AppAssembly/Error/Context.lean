import AppAssembly.Entries.Sorted
import AppAssembly.Origin

/-!
# Context of an error

The `key='value'` lines under the message of an error. Keys are unique; they are shown with the
origin and the provenance first and the others in order.
-/

namespace AppAssembly

/-- Fields under unique keys, sorted by key. -/
structure Context where
  fields : List (String × String) := []
deriving DecidableEq, Repr

namespace Context

/-- Adds a field, replacing a previous one under the same key. -/
def insert (c : Context) (key value : String) : Context :=
  ⟨Entries.insertSorted key value c.fields⟩

/-- A context with the given fields, added in order. -/
def ofFields (fields : List (String × String)) : Context :=
  fields.foldl (fun c field => c.insert field.1 field.2) {}

/-- A context with an origin and further fields. -/
def ofOrigin (origin : Origin) (fields : List (String × String) := []) : Context :=
  ofFields (("origin", origin.display) :: fields)

def get? (c : Context) (key : String) : Option String :=
  (c.fields.find? fun field => field.1 = key).map Prod.snd

def isEmpty (c : Context) : Bool :=
  c.fields.isEmpty

/-- The keys shown before all others, in this order. -/
def shownFirst : List String := ["origin", "added_by", "removed_by"]

/-- The fields in the order in which they are shown. -/
def ordered (c : Context) : List (String × String) :=
  shownFirst.filterMap (fun key => c.fields.find? fun field => field.1 = key)
    ++ c.fields.filter (fun field => field.1 ∉ shownFirst)

/-- The keys in the order in which they are shown. -/
def orderedKeys (c : Context) : List String :=
  c.ordered.map Prod.fst

def render (c : Context) : String :=
  "\n".intercalate (c.ordered.map fun (key, value) => key ++ "='" ++ value ++ "'")

/-- A message with the context under it. -/
def report (c : Context) (message : String) : String :=
  if c.isEmpty then message else message ++ "\n" ++ c.render

end Context

end AppAssembly
