import AppAssembly.Handler.Basic

/-!
# The built-in handlers

Attributes, checkers and methods become members of the type itself. Components become one group
object. Installers and requirements put nothing on the type and only fill the ledger.
-/

namespace AppAssembly.Handler

/-! ## Attributes, checkers, methods -/

def attrs : Handler where
  name := "attrs"
  extendable := false
  handle d ledger :=
    let entries := d.entriesOverNulls
    let products := entries.map fun (key, v) =>
      (key, if v.isNull then d.nullContent key else .value v)
    .ok (products,
      (ledger.recordRemoved d.origin (d.suppressedKeys entries)).recordAttrs entries.keys)

/-- Whether a value may stand among the checkers. -/
def isCheckerEntry : Value → Bool
  | .callable _ | .null => true
  | _ => false

/-- Whether a value is run as a checker. -/
def isActiveChecker : Value → Bool
  | .callable c => c.checker
  | _ => false

/-- Puts callables onto the type that are run by the sanity check. -/
def checkers : Handler where
  name := "checkers"
  extendable := false
  handle d ledger :=
    let entries := d.entriesOverNulls
    match entries.find? fun (_, v) => !isCheckerEntry v with
    | some (key, v) => .error (d.badEntry key "callables" v)
    | none =>
        let products := entries.map fun (key, v) =>
          (key, if v.isNull then d.nullContent key else .value v)
        let ledger := entries.foldl
          (fun ledger (key, v) => ledger.recordChecker key d.origin (isActiveChecker v)) ledger
        .ok (products, ledger.recordRemoved d.origin (d.suppressedKeys entries))

/-- What an entry of a methods block puts on the type, if it may stand there: a delegate for a
dot-path, or the callable itself. -/
def methodContent? (d : Declaration) (key : String) : Value → Option Content
  | .str path => some (.delegate ⟨key, path, d.origin⟩)
  | .null => some (d.nullContent key)
  | v => if v.isCallable then some (.value v) else none

/-- Puts delegates and callables onto the type that have to be callable on an instance. -/
def methods : Handler where
  name := "methods"
  extendable := false
  handle d ledger :=
    let entries := d.entriesOverNulls
    match entries.find? fun (key, v) => (methodContent? d key v).isNone with
    | some (key, v) => .error (d.badEntry key "dot-paths or callables" v)
    | none =>
        let products := entries.filterMap fun (key, v) =>
          (methodContent? d key v).map fun content => (key, content)
        let ledger := entries.keys.foldl (fun ledger key => ledger.recordMethod key d.origin) ledger
        .ok (products, ledger.recordRemoved d.origin (d.suppressedKeys entries))

/-! ## Installers -/

/-- The path of an installer; a null suppresses an inherited one. -/
def installerPath? : Value → Option (Option String)
  | .str path => some (some path)
  | .null => some none
  | _ => none

/-- Records which objects are installed. Two block names have this handler. -/
def installersNamed (name : String) : Handler where
  name := name
  nullable := false
  handle d ledger :=
    match d.block.entries.find? fun (_, v) => (installerPath? v).isNone with
    | some (key, v) => .error (d.badEntry key "dot-paths" v)
    | none =>
        let entries := d.block.entries.mapValues fun v => (installerPath? v).getD none
        match ledger.setInstallers ⟨entries, d.block.mergesInherited, d.origin⟩ with
        | .ok ledger => .ok ([], ledger)
        | .error e => .error e

/-! ## Components -/

/-- The entries of the block over those it inherits, unless it drops these. -/
def mergedEntries (d : Declaration) : Entries String Value :=
  Entries.overlay (if d.block.mergesInherited then d.inherited.entries else []) d.block.entries

/-- Records what the factories among the components need. -/
def recordComponentFactories (identity : String) (origin : Origin) (entries : Entries String Value)
    (ledger : Ledger) : Ledger :=
  entries.foldl (fun ledger (key, v) =>
    match v with
    | .factory f => ledger.recordFactory f (identity ++ "." ++ key) origin
    | _ => ledger) ledger

/-- Describes one group object with every component of the block; nulls leave out inherited
components. -/
def components : Handler where
  name := "components"
  nullable := false
  handle d ledger :=
    let identity := Text.lowercase d.block.identity
    let entries := (mergedEntries d).filter fun (_, v) => !v.isNull
    let group : ComponentGroup := ⟨identity, Entries.mapValues .ofValue entries, d.origin⟩
    .ok ([(identity, .deferred)],
      (recordComponentFactories identity d.origin entries ledger).recordComponents group)

/-! ## Requirements -/

/-- The paths of a list; on failure, gives the first element that is no path. -/
def pathsOf : List Value → Except Value (List String)
  | [] => .ok []
  | .str path :: rest => (pathsOf rest).map (path :: ·)
  | v :: _ => .error v

/-- The paths an entry of a requires block asks for. -/
def requiredPaths (d : Declaration) (key : String) : Value → Except Error (List String)
  | .str path => .ok [path]
  | .null => .ok []
  | .list items =>
      match pathsOf items with
      | .ok paths => .ok paths
      | .error v => .error (d.badEntry key "dot-paths" v)
  | v => .error (d.badEntry key "dot-paths or lists of dot-paths" v)

/-- Records the requirements of the entries, in order. -/
def recordRequired (d : Declaration) (ledger : Ledger) :
    Entries String Value → Except Error Ledger
  | [] => .ok ledger
  | (key, v) :: rest =>
      match requiredPaths d key v with
      | .ok paths => recordRequired d (ledger.recordRequirement paths key d.origin) rest
      | .error e => .error e

/-- The inherited requirements that the block drops without declaring them anew. -/
def droppedRequirements (d : Declaration) : List String :=
  if d.block.nullifiesInherited || !d.block.mergesInherited then
    d.inherited.entries.keys.filter fun key => !d.block.entries.contains key
  else []

/-- Records paths that have to resolve on an instance. -/
def requires : Handler where
  name := "requires"
  handle d ledger :=
    let ledger := (droppedRequirements d).foldl
      (fun ledger key => ledger.recordRequirement [] key d.origin) ledger
    match recordRequired d ledger d.block.entries with
    | .ok ledger => .ok ([], ledger)
    | .error e => .error e

def builtIn : List Handler :=
  [attrs, checkers, methods, installersNamed "install", installersNamed "installers", components,
    requires]

end AppAssembly.Handler
