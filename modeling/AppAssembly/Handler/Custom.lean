import AppAssembly.Handler.Basic

/-!
# Handlers for blocks of one's own

Small handlers that can be registered next to the built-in ones. All but the one that refuses differ
only in what they offer to put on the type.
-/

namespace AppAssembly.Handler

/-- The names of a list as a value. -/
def nameList (names : List String) : Value :=
  .list (names.map .str)

/-- Everything a handler can tell about a declaration, as one value. -/
def survey (d : Declaration) : Value :=
  .list [.str d.typeName, .str d.origin.display, .bool d.inherited.isEmpty,
    .list (d.inherited.entries.map fun (key, v) => .list [.str key, v]),
    match d.inherited.mainType with
    | some f => .factory f
    | none => .null,
    nameList (d.ancestors.map Layer.name), nameList d.nulls.keys,
    nameList (d.block.entries.keys.filter d.overridesInherited)]

/-- What a handler offers to put on the type for a block. -/
inductive Offer where
  | nothing
  /-- Every entry, under the handler's name and the key. -/
  | entries
  /-- What it can tell about the declaration, under the handler's name. -/
  | survey
  /-- A null under every key, which is recorded as removed. -/
  | nulls
  /-- An object under every key, which is left to others to build. -/
  | promises
deriving DecidableEq, Repr

namespace Offer

def products (offer : Offer) (name : String) (d : Declaration) : Products :=
  match offer with
  | nothing => []
  | entries => d.block.entries.map fun (key, v) => (name ++ "_" ++ key, .value v)
  | survey => [(name, .value (Handler.survey d))]
  | nulls => d.block.entries.map fun (key, _) => (key, .value .null)
  | promises => d.block.entries.map fun (key, _) => (key, .deferred)

def record (offer : Offer) (d : Declaration) (ledger : Ledger) : Ledger :=
  match offer with
  | nulls => ledger.recordRemoved d.origin d.block.entries.keys
  | nothing | entries | survey | promises => ledger

end Offer

/-- A handler that never fails. -/
def offering (offer : Offer) (name : String) (extendable nullable : Bool) : Handler where
  name := name
  extendable := extendable
  nullable := nullable
  handle d ledger := .ok (offer.products name d, offer.record d ledger)

def inert (name : String) : Handler :=
  offering .nothing name true true

def prefixed (name : String) (extendable nullable : Bool) : Handler :=
  offering .entries name extendable nullable

def surveying (name : String) (extendable nullable : Bool) : Handler :=
  offering .survey name extendable nullable

def removing (name : String) (extendable nullable : Bool) : Handler :=
  offering .nulls name extendable nullable

def deferring (name : String) (extendable nullable : Bool) : Handler :=
  offering .promises name extendable nullable

/-- The complaint of a handler that refuses a block. -/
def refusal (name : String) (b : Block) : Error :=
  .developer (.reported (name ++ " refuses " ++ b.identity) {} none)

def refusing (name : String) (extendable nullable : Bool) : Handler where
  name := name
  extendable := extendable
  nullable := nullable
  handle d _ := .error (refusal name d.block)

end AppAssembly.Handler
