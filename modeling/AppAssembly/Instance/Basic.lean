import AppAssembly.Delegate
import AppAssembly.Factory.Workshop
import AppAssembly.Layer.Compiled

/-!
# Instances

An instance is one application object of a compiled type. What was built or set lives in the
instance, every other name falls through to the winning member of the type. Each instance has its
own cells for the delegates among these.
-/

namespace AppAssembly

/-- One application object. -/
structure Instance where
  compiled : CompiledType
  /-- The path of what `run` calls. -/
  runner : String := "runner"
  /-- What was built or set. -/
  attrs : Entries String Value := []
  /-- The delegates of the type with their cells. -/
  cells : Entries String (Delegate × Cell)
  phase : Phase := .created
  /-- Whether the deferred objects were created, or creating them was begun. -/
  materialized : Bool := false
  /-- The names that were set and the values they got, oldest first. -/
  written : List (String × Value) := []
  workshop : Workshop := {}

namespace Instance

/-- The delegates among the winning members of a type, all unresolved. -/
def freshCells (t : CompiledType) : Entries String (Delegate × Cell) :=
  t.memberNames.filterMap fun name =>
    match t.member? name with
    | some (_, ⟨.delegate d, _⟩) => some (name, d, .unresolved)
    | _ => none

def ofType (t : CompiledType) (runner : String := "runner") (workshop : Workshop := {}) :
    Instance where
  compiled := t
  runner := runner
  cells := freshCells t
  workshop := workshop

def describe (i : Instance) : String :=
  "<" ++ i.compiled.name ++ " instance>"

/-- The delegate under a name, if the winning member is one. -/
def delegate? (i : Instance) (name : String) : Option Delegate :=
  (i.cells.get? name).map Prod.fst

def cell (i : Instance) (name : String) : Cell :=
  ((i.cells.get? name).map Prod.snd).getD .unresolved

def putCell (i : Instance) (name : String) (d : Delegate) (c : Cell) : Instance :=
  { i with cells := i.cells.insert name (d, c) }

def place (i : Instance) (name : String) (v : Value) : Instance :=
  { i with attrs := i.attrs.insert name v }

/-- Remembers that a name was set. -/
def record (i : Instance) (name : String) (v : Value) : Instance :=
  { i with written := i.written ++ [(name, v)] }

/-- How many delegates wait for their path. -/
def waiting (i : Instance) : Nat :=
  i.cells.countP fun entry => entry.2.2.isUnresolved

/-! ## Looking up -/

theorem countP_insert_lt {p : String × Delegate × Cell → Bool}
    {cells : Entries String (Delegate × Cell)} {name : String} {old new : Delegate × Cell}
    (h : cells.get? name = some old) (ho : p (name, old) = true) (hn : p (name, new) = false) :
    List.countP p (cells.insert name new) < List.countP p cells := by
  induction cells with
  | nil => cases h
  | cons entry rest ih =>
      obtain ⟨k, v⟩ := entry
      by_cases hk : k = name
      · subst hk
        simp only [Entries.get?_cons, if_true, Option.some.injEq] at h
        subst h
        simp [Entries.insert, ho, hn]
      · simp only [Entries.get?_cons, hk, if_false] at h
        have := ih h
        simp only [Entries.insert, hk, if_false, List.countP_cons]
        omega

/-- A cell that begins to be resolved waits no longer. -/
theorem waiting_putCell_lt {i : Instance} {name : String} {d : Delegate} {c : Cell}
    (h : i.cells.get? name = some (d, c)) (hc : d.answer? c = none) :
    (i.putCell name d .resolving).waiting < i.waiting := by
  cases c with
  | unresolved => exact countP_insert_lt h rfl rfl
  | resolving => cases hc
  | resolved v => cases hc

/-- What stands under a name: a value that was placed, or else the winning member. A delegate is
resolved when it is first looked up; for that it looks up the head of its own path. -/
def lookup (name : String) (i : Instance) : Except Error (Option Value) × Instance :=
  match i.attrs.get? name with
  | some v => (.ok (some v), i)
  | none =>
      match i.compiled.member? name with
      | none | some (_, ⟨.deferred, _⟩) => (.ok none, i)
      | some (_, ⟨.value v, _⟩) => (.ok (some v), i)
      | some (_, ⟨.delegate _, _⟩) =>
          match _h : i.cells.get? name with
          | none => (.ok none, i)
          | some (d, c) =>
              match _hc : d.answer? c with
              | some answer => (answer.map some, i)
              | none =>
                  let path := Path.ofText d.path
                  let begun := i.putCell name d .resolving
                  let (first, j) :=
                    if path.head = "" then (.ok none, begun) else lookup path.head begun
                  let (answer, c) := d.settle (first.bind (path.follow i.describe)) (j.cell name)
                  (answer.map some, j.putCell name d c)
termination_by i.waiting
decreasing_by exact waiting_putCell_lt _h _hc

/-- The instance as a place to start from. -/
def asNamespace (i : Instance) : Namespace Instance where
  describe := i.describe
  lookup := lookup

/-- The value at the end of a path. -/
def get (path : String) : Act Instance Value := fun i =>
  i.asNamespace.resolve path i

/-- The values at the end of several paths, up to the first failure. -/
def getAll (paths : List String) : Act Instance (List Value) := fun i =>
  i.asNamespace.resolveAll paths i

def has (path : String) : Act Instance Bool := do
  return (← (get path).attempt).isOk

/-! ## Setting -/

/-- Whether a name is plain: not empty, and no path. -/
def isPlain (name : String) : Bool :=
  name ≠ "" && !name.toList.contains '.'

/-- Whether a name only gets its value when the deferred objects are created. -/
def awaits (i : Instance) (name : String) : Bool :=
  match i.compiled.member? name with
  | some (_, ⟨.deferred, _⟩) => !i.materialized
  | _ => false

/-- Sets an attribute; on a delegate, the value is forced into its cell. -/
def set (name : String) (v : Value) : Act Instance Unit := fun i =>
  match i.cells.get? name with
  | some (d, _) => (.ok (), (i.putCell name d (.resolved v)).record name v)
  | none =>
      if !isPlain name then
        (.error (.other ("Can only set plain attribute names, got '" ++ name ++ "'")), i)
      else if i.awaits name then (.error (.lifecycle i.phase (.builtLater name)), i)
      else (.ok (), (i.place name v).record name v)

/-! ## The workshop of an instance -/

/-- Works in the workshop of an instance. -/
def inWorkshop {α : Type} (act : Act Workshop α) : Act Instance α := fun i =>
  let (r, workshop) := act i.workshop
  (r, { i with workshop })

def write (line : String) : Act Instance Unit :=
  inWorkshop (Act.modify fun w => w.write line)

def note (deed : Deed) : Act Instance Unit :=
  inWorkshop (Act.modify fun w => w.note deed)

end Instance

end AppAssembly
