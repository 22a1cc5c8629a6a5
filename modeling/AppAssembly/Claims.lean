import AppAssembly.Entries.Basic
import AppAssembly.Error.Basic

/-!
# Claims on names

While a type is compiled, every attribute name can be claimed once: by hand or by a block. A block
that would produce a claimed name is refused.
-/

namespace AppAssembly

/-- How a name was claimed. -/
inductive ClaimKind where
  | byHand
  | generated
deriving DecidableEq, Repr

def ClaimKind.description : ClaimKind → String
  | byHand => "already defined by hand on same type"
  | generated => "already generated by another declaration on same type"

/-- A name with the kind of its claim and whoever claimed it. -/
structure Conflict where
  name : String
  kind : ClaimKind
  claimedBy : Origin
deriving DecidableEq, Repr

abbrev Claims := Entries String (ClaimKind × Origin)

namespace Claims

def byHand (c : Claims) (names : List (String × Origin)) : Claims :=
  Entries.overlay c (names.map fun (name, origin) => (name, .byHand, origin))

def generated (c : Claims) (names : List String) (origin : Origin) : Claims :=
  Entries.overlay c (names.map fun name => (name, .generated, origin))

/-- The names that are claimed already, in the order given. -/
def conflicts (c : Claims) (names : List String) : List Conflict :=
  names.filterMap fun name => (Entries.get? c name).map fun (kind, origin) => ⟨name, kind, origin⟩

/-- Refuses a declaration that would produce a claimed name. -/
def ensureFree (c : Claims) (origin : Origin) (names : List String) : Except Error Unit :=
  match c.conflicts names with
  | [] => .ok ()
  | first :: rest =>
      .error (.developer (.taken origin.label first.kind.description
        ((first :: rest).map fun conflict => (conflict.name, conflict.claimedBy)) origin))

end Claims

end AppAssembly
