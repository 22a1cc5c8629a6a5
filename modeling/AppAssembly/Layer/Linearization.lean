import AppAssembly.Layer.Compiled

/-!
# The order of layers

The layers of several bases are merged into one order that agrees with the order inside every base
and with the order of the bases themselves. Of the layers that may come next, the one of the
earliest base is taken; if none may, there is no such order.
-/

namespace AppAssembly

namespace Linearization

variable {α κ : Type} [DecidableEq κ]

/-- Whether no row has the element behind its head. -/
def admissible (key : α → κ) (rows : List (List α)) (a : α) : Bool :=
  rows.all fun row => row.tail.all fun b => key b ≠ key a

/-- The first head of a row that may come next. -/
def next? (key : α → κ) (rows : List (List α)) : Option α :=
  (rows.filterMap List.head?).find? (admissible key rows)

/-- Drops an element from the head of a row. -/
def dropHead (key : α → κ) (a : α) : List α → List α
  | [] => []
  | b :: rest => if key b = key a then rest else b :: rest

theorem length_dropHead_le (key : α → κ) (a : α) (row : List α) :
    (dropHead key a row).length ≤ row.length := by
  cases row with
  | nil => simp [dropHead]
  | cons b rest => simp only [dropHead]; split <;> simp

/-- Takes an element off every row that it heads. -/
def advance (key : α → κ) (a : α) (rows : List (List α)) : List (List α) :=
  rows.map (dropHead key a)

theorem length_flatten_advance_le (key : α → κ) (a : α) (rows : List (List α)) :
    (advance key a rows).flatten.length ≤ rows.flatten.length := by
  induction rows with
  | nil => simp [advance]
  | cons row rest ih =>
      have := length_dropHead_le key a row
      simp only [advance] at ih
      simp only [advance, List.map_cons, List.flatten_cons, List.length_append]
      omega

/-- Dropping the head of a row makes the rows shorter. -/
theorem length_flatten_advance_lt (key : α → κ) {a : α} {rows : List (List α)}
    (h : a ∈ rows.filterMap List.head?) :
    (advance key a rows).flatten.length < rows.flatten.length := by
  induction rows with
  | nil => cases h
  | cons row rest ih =>
      have hle := length_flatten_advance_le key a rest
      simp only [advance] at ih hle
      simp only [advance, List.map_cons, List.flatten_cons, List.length_append]
      cases row with
      | nil =>
          have := ih (by simpa using h)
          simpa only [dropHead, List.length_nil, Nat.zero_add] using this
      | cons b tail =>
          by_cases hb : key b = key a
          · simp only [dropHead, hb, if_true, List.length_cons]
            omega
          · have ha : a ∈ rest.filterMap List.head? := by
              simp only [List.filterMap_cons, List.head?_cons, List.mem_cons] at h
              rcases h with rfl | h
              · exact absurd rfl hb
              · exact h
            have := ih ha
            simp only [dropHead, hb, if_false, List.length_cons]
            omega

/-- Merges the rows into one order, if there is one. -/
def merge (key : α → κ) (rows : List (List α)) : Option (List α) :=
  if rows.all List.isEmpty then some []
  else
    match _h : next? key rows with
    | none => none
    | some a => (merge key (advance key a rows)).map (a :: ·)
termination_by rows.flatten.length
decreasing_by exact length_flatten_advance_lt key (List.mem_of_find?_eq_some _h)

end Linearization

/-- The first base that was named before, going by the identity of its layer. -/
def repeatedBase? (earlier : List Nat) : List CompiledType → Option CompiledType
  | [] => none
  | base :: rest =>
      if base.own.id ∈ earlier then some base else repeatedBase? (base.own.id :: earlier) rest

/-- The layers of all ancestors of a type with the given bases, nearest first. -/
def ancestorsOf (typeName : String) (bases : List CompiledType) : Except Error (List Layer) :=
  match repeatedBase? [] bases with
  | some base => .error (.developer (.duplicateBase typeName base.name))
  | none =>
      match Linearization.merge Layer.id
          (bases.map CompiledType.layers ++ [bases.map CompiledType.own]) with
      | some layers => .ok layers
      | none => .error (.developer (.noConsistentOrder typeName (bases.map CompiledType.name)))

end AppAssembly
