import AppAssembly.Ledger
import AppAssembly.Spec.Block

/-!
# Type specifications

Everything that is declared on one application type: its blocks, and the members written by hand.
-/

namespace AppAssembly

/-- The declarations of one type. -/
structure TypeSpec where
  name : String
  blocks : List Block := []
  members : Entries String Value := []
  location : Option Location := none
  /-- The ledger compilation starts from. -/
  ledger : Ledger := {}

namespace TypeSpec

def block (s : TypeSpec) (b : Block) : TypeSpec :=
  { s with blocks := s.blocks ++ [b] }

def member (s : TypeSpec) (name : String) (v : Value) : TypeSpec :=
  { s with members := s.members.insert name v }

/-- Declares a callable under its own name. -/
def method (s : TypeSpec) (c : Callable) : TypeSpec :=
  s.member c.name (.callable c)

def origin (s : TypeSpec) : Origin :=
  .ofType s.name s.location

/-- A member as a declaration. A callable was written where it says it was. -/
def memberOrigin (s : TypeSpec) (name : String) : Origin :=
  let own := ((s.members.get? name).bind Value.callable?).bind Callable.location
  .member s.name name (own.or s.location)

end TypeSpec

end AppAssembly
