import AppAssembly.Component
import AppAssembly.Path

/-!
# Ledgers

Every layer keeps a ledger: which declaration added, removed or replaced which attribute, what it
requires and checks, what it installs and what has to be built for it. A name is added by one
declaration at a time, and one that was removed or replaced counts as added no longer once the
ledger has been normalised.
-/

namespace AppAssembly

/-! ## Names under origins -/

/-- Names recorded under the declaration that answers for them. -/
abbrev NameRecord := Entries Origin (List String)

namespace NameRecord

/-- Appends the names that a list lacks, in order. -/
def addNew (listed : List String) (names : List String) : List String :=
  names.foldl (fun all name => if name ∈ all then all else all ++ [name]) listed

/-- Records names under an origin, each once. Without names nothing is recorded. -/
def add (r : NameRecord) (origin : Origin) (names : List String) : NameRecord :=
  if names.isEmpty then r
  else Entries.insert r origin (addNew ((Entries.get? r origin).getD []) names)

/-- Drops names from every list, and the origins that have none left. -/
def drop (r : NameRecord) (names : List String) : NameRecord :=
  (Entries.mapValues (fun listed => listed.filter (· ∉ names)) r).filter
    fun entry => !entry.2.isEmpty

/-- All recorded names, first seen first. -/
def names (r : NameRecord) : List String :=
  addNew [] (Entries.values r).flatten

/-- The first origin that has a name. -/
def recordedBy? (r : NameRecord) (name : String) : Option Origin :=
  (r.find? fun entry => name ∈ entry.2).map Prod.fst

end NameRecord

/-! ## Entries of a ledger -/

/-- Paths that have to resolve on a finished instance. Without paths it only hides the inherited
requirement of the same identity. -/
structure Requirement where
  paths : List String
  identity : String
  origin : Origin
deriving DecidableEq, Repr

/-- Whether it only hides an inherited requirement. -/
def Requirement.isSuppression (r : Requirement) : Bool :=
  r.paths.isEmpty

/-- Resolves every path, and says whose requirement it is if one fails. -/
def Requirement.check {σ : Type} (r : Requirement) (root : Namespace σ) : Act σ Unit :=
  Act.forEach r.paths fun path => do
    let _ ← (root.resolve path).mapError (Error.intoRequirement .requires r.identity r.origin)

/-- The installers one layer declares. -/
structure InstallerBlock where
  /-- The path of each object to install; `none` suppresses an inherited one. -/
  entries : Entries String (Option String)
  /-- Whether inherited installers are kept. -/
  extend : Bool
  origin : Origin
deriving DecidableEq, Repr

/-- An object to install. -/
structure Installer where
  identity : String
  path : String
  origin : Origin
deriving DecidableEq, Repr

/-- An attribute that takes part in the sanity check. -/
structure Checker where
  identity : String
  origin : Origin
  /-- An inactive checker only hides the inherited one. -/
  active : Bool
deriving DecidableEq, Repr

/-- An attribute that has to be callable. -/
structure Method where
  identity : String
  origin : Origin
deriving DecidableEq, Repr

/-! ## The ledger -/

/-- What one layer adds, removes, replaces, requires, checks, installs and builds. -/
structure Ledger where
  added : NameRecord := []
  removed : NameRecord := []
  replaced : NameRecord := []
  attrs : List String := []
  methods : List Method := []
  checkers : List Checker := []
  installers : Option InstallerBlock := none
  components : List ComponentGroup := []
  custom : List CustomObject := []
  requirements : List Requirement := []

namespace Ledger

/-- Records names that a declaration supplies. No other one answers for them any longer. -/
def recordAdded (l : Ledger) (origin : Origin) (names : List String) : Ledger :=
  { l with added := (l.added.drop names).add origin names }

/-- Records names that a declaration nulled out. -/
def recordRemoved (l : Ledger) (origin : Origin) (names : List String) : Ledger :=
  { l with removed := l.removed.add origin names }

/-- Records names that were declared by hand over generated ones. -/
def recordReplaced (l : Ledger) (origin : Origin) (names : List String) : Ledger :=
  { l with replaced := l.replaced.add origin names }

/-- Who added a name. -/
def addedBy? (l : Ledger) (name : String) : Option Origin := l.added.recordedBy? name

/-- Who nulled a name out. -/
def removedBy? (l : Ledger) (name : String) : Option Origin := l.removed.recordedBy? name

/-- Who declared a name by hand over a generated one. -/
def replacedBy? (l : Ledger) (name : String) : Option Origin := l.replaced.recordedBy? name

/-- Names that were removed or replaced count as added no longer. -/
def normalise (l : Ledger) : Ledger :=
  { l with added := l.added.drop (l.removed.names ++ l.replaced.names) }

/-- Records attributes a block copied onto the type. -/
def recordAttrs (l : Ledger) (names : List String) : Ledger :=
  { l with attrs := NameRecord.addNew l.attrs names }

/-- Records an attribute that has to be callable. -/
def recordMethod (l : Ledger) (identity : String) (origin : Origin) : Ledger :=
  { l with methods := l.methods ++ [⟨identity, origin⟩] }

def recordChecker (l : Ledger) (identity : String) (origin : Origin) (active : Bool) : Ledger :=
  { l with checkers := l.checkers ++ [⟨identity, origin, active⟩] }

/-- Sets the installers of the layer, which declares them at most once. -/
def setInstallers (l : Ledger) (block : InstallerBlock) : Except Error Ledger :=
  match l.installers with
  | some first => .error (.developer (.installersTwice block.origin first.origin))
  | none => .ok { l with installers := some block }

def recordComponents (l : Ledger) (group : ComponentGroup) : Ledger :=
  { l with components := l.components ++ [group] }

def recordCustom (l : Ledger) (object : CustomObject) : Ledger :=
  { l with custom := l.custom ++ [object] }

def recordRequirement (l : Ledger) (paths : List String) (identity : String) (origin : Origin) :
    Ledger :=
  { l with requirements := l.requirements ++ [⟨paths, identity, origin⟩] }

/-- Records the paths a callable asks for, if it does. -/
def recordMarker (l : Ledger) (v : Value) (identity : String) (origin : Origin) : Ledger :=
  if v.requiredPaths.isEmpty then l else l.recordRequirement v.requiredPaths identity origin

/-- Records the paths the objects of a factory need, if there are any. -/
def recordFactory (l : Ledger) (f : Factory) (identity : String) (origin : Origin) : Ledger :=
  if f.requires.isEmpty then l else l.recordRequirement f.requires identity origin

/-- Everything that has to be built on an instance: groups first, then custom objects. -/
def deferred (l : Ledger) : List Deferred :=
  l.components.map .components ++ l.custom.map .custom

end Ledger

end AppAssembly
