import AppAssembly.Path

/-!
# Delegates

A delegate is an attribute that forwards to wherever a dot-path of its owner leads. Its cell keeps
the value once the path has been resolved, and a value that is forced into it wins over whatever
the path leads to, even while the path is being resolved.
-/

namespace AppAssembly

/-- An attribute that forwards to a path, and the declaration behind it. -/
structure Delegate where
  identity : String
  path : String
  origin : Origin
deriving DecidableEq, Repr

/-- How far a delegate has been resolved. -/
inductive Cell where
  | unresolved
  | resolving
  | resolved (v : Value)

namespace Cell

def isResolved : Cell → Bool
  | resolved _ => true
  | _ => false

/-- Whether the cell waits for its path. -/
def isUnresolved : Cell → Bool
  | unresolved => true
  | _ => false

end Cell

namespace Delegate

/-- The report on a delegate that is needed to resolve itself. -/
def selfReference (d : Delegate) : Error :=
  .developer (.selfReference d.identity d.path d.origin)

/-- What a cell says without resolving anything; `none` if its path has to be resolved. -/
def answer? (d : Delegate) : Cell → Option (Except Error Value)
  | .resolved v => some (.ok v)
  | .resolving => some (.error d.selfReference)
  | .unresolved => none

/-- Ends a resolution: from its outcome and the cell as it is found then, the answer and the cell
as it is left. A value that was forced in the meantime stays. -/
def settle (d : Delegate) (outcome : Except Error Value) (now : Cell) : Except Error Value × Cell :=
  match outcome, now with
  | .ok _, .resolved forced => (.ok forced, .resolved forced)
  | .ok v, _ => (.ok v, .resolved v)
  | .error e, now =>
      (.error (e.intoRequirement .delegateTo d.identity d.origin),
        match now with
        | .resolving => .unresolved
        | now => now)

variable {τ : Type}

/-- The value of a delegate, for any owner. While it is being resolved, the owner sees the cell
and may change it. -/
def get (d : Delegate) (owner : Namespace (Cell × τ)) : Act (Cell × τ) Value := fun (cell, t) =>
  match d.answer? cell with
  | some answer => (answer, (cell, t))
  | none =>
      let (outcome, (now, t)) := owner.resolve d.path (.resolving, t)
      let (answer, cell) := d.settle outcome now
      (answer, (cell, t))

/-- Forces a value, whatever the cell holds. -/
def force (v : Value) : Act (Cell × τ) Unit :=
  Act.modify fun (_, t) => (.resolved v, t)

end Delegate

/-! ## Owners that touch the cell -/

/-- What an owner may do to the cell of a delegate while it looks up a name. -/
inductive Touch where
  | force (v : Value)
  /-- Reads the cell; the lookup fails if that fails. -/
  | read
  | fail (e : Error)

/-- An owner with attributes, some of which touch the cell before they are looked up. -/
structure Owner where
  attrs : Entries String Value
  hooks : Entries String (List Touch)

namespace Owner

/-- Does the touches in order, up to the first failure. -/
def touch (d : Delegate) : List Touch → Act (Cell × Owner) Unit
  | [] => pure ()
  | .force v :: rest => do
      Delegate.force v
      touch d rest
  | .read :: rest => do
      let (cell, _) ← Act.state
      match cell with
      | .resolved _ => touch d rest
      | _ => Act.fail d.selfReference
  | .fail e :: _ => Act.fail e

/-- The owner as a place to start from. -/
def asNamespace (d : Delegate) : Namespace (Cell × Owner) where
  describe := "<owner>"
  lookup name := do
    let (_, owner) ← Act.state
    touch d ((owner.hooks.get? name).getD [])
    return owner.attrs.get? name

end Owner

end AppAssembly
