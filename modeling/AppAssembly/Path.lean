import AppAssembly.Act
import AppAssembly.Value.Describe

/-!
# Dot-paths

A path such as `components.cli.get_parser` is followed one segment at a time: the first segment is
looked up in a namespace, every further one on the value reached so far. When a segment is empty
or missing, the error says how far the path could be followed.
-/

namespace AppAssembly

/-- A dot-path, taken apart at the dots. -/
structure Path where
  text : String
  head : String
  tail : List String
deriving DecidableEq, Repr

namespace Path

/-- Takes a path apart; a text without dots is its only segment. -/
def ofText (text : String) : Path :=
  let (head, tail) := Text.splitAt '.' text.toList
  ⟨text, String.ofList head, tail.map String.ofList⟩

def segments (p : Path) : List String :=
  p.head :: p.tail

/-- What is reported when the segments after `found` can't be followed. -/
def notFound (p : Path) (root : String) (found : List String) : Error :=
  .pathNotFound ⟨p.text, root, found⟩

/-- Follows further segments from a value; on failure, gives the segments that were found. -/
def walk (found : List String) (v : Value) : List String → Except (List String) Value
  | [] => .ok v
  | segment :: rest =>
      match if segment = "" then none else v.lookup segment with
      | some next => walk (found ++ [segment]) next rest
      | none => .error found

/-- Follows the path, given what its first segment leads to. -/
def follow (p : Path) (root : String) : Option Value → Except Error Value
  | none => .error (p.notFound root [])
  | some first =>
      match walk [p.head] first p.tail with
      | .ok v => .ok v
      | .error found => .error (p.notFound root found)

end Path

/-- Something a path can start from. Looking up a name may change the state it lives in. -/
structure Namespace (σ : Type) where
  /-- How errors name it. -/
  describe : String
  lookup : String → Act σ (Option Value)

namespace Namespace

variable {σ : Type}

/-- Looks up the first segment of a path; an empty one leads nowhere. -/
def lookupHead (root : Namespace σ) (p : Path) : Act σ (Option Value) :=
  if p.head = "" then pure none else root.lookup p.head

/-- The value at the end of a path. -/
def resolve (root : Namespace σ) (text : String) : Act σ Value := do
  let p := Path.ofText text
  let first ← root.lookupHead p
  Act.ofExcept (p.follow root.describe first)

/-- A path is followed from whatever its first segment leads to. -/
theorem resolve_apply (root : Namespace σ) (text : String) (s : σ) :
    root.resolve text s =
      ((root.lookupHead (Path.ofText text) s).1.bind ((Path.ofText text).follow root.describe),
        (root.lookupHead (Path.ofText text) s).2) := by
  show (root.lookupHead (Path.ofText text) >>= fun first => Act.ofExcept
    ((Path.ofText text).follow root.describe first)) s = _
  rw [Act.bind_apply]
  cases root.lookupHead (Path.ofText text) s with
  | mk first t => cases first <;> rfl

/-- The values at the end of several paths, up to the first failure. -/
def resolveAll (root : Namespace σ) (texts : List String) : Act σ (List Value) :=
  Act.mapList texts root.resolve

end Namespace

/-- An object as a place to start from. -/
def Obj.asNamespace {σ : Type} (o : Obj) : Namespace σ where
  describe := o.describe
  lookup name := pure (o.lookup name)

end AppAssembly
