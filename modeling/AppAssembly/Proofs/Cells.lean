import AppAssembly.Proofs.Moves

/-!
# Looking up delegates

What a look-up does is said once, for each of the two cases: nothing has to be resolved, or there is
a delegate whose cell waits for its path (`pending?`). In the second case the head of that path is
looked up with the cell marked, and the outcome is settled (`lookup_pending`). Either way no more
happens than that waiting cells get values (`lookup_resolves`). Since one cell less is waiting
while the head is looked up, the same two cases carry every induction (`lookup_induct`).
-/

namespace AppAssembly

variable {i j k : Instance} {name other : String} {d : Delegate}

namespace Delegate

/-- The first segment of the path, where the delegate goes on. -/
def head (d : Delegate) : String :=
  (Path.ofText d.path).head

/-- Follows the path from what its first segment leads to, and settles the cell, which is still
marked. -/
def conclude (d : Delegate) (root : String) (first : Except Error (Option Value)) :
    Except Error Value × Cell :=
  d.settle (first.bind ((Path.ofText d.path).follow root)) .resolving

theorem conclude_cases (d : Delegate) (root : String) (first : Except Error (Option Value)) :
    (∃ v, d.conclude root first = (.ok v, .resolved v)) ∨
      ∃ e, d.conclude root first = (.error e, .unresolved) := by
  unfold conclude settle
  cases first.bind ((Path.ofText d.path).follow root) with
  | ok v => exact .inl ⟨v, rfl⟩
  | error e => exact .inr ⟨_, rfl⟩

end Delegate

namespace Instance

/-- The delegate under a name, if its cell waits for the path. -/
def pending? (i : Instance) (name : String) : Option Delegate :=
  match i.cells.get? name with
  | some (d, .unresolved) => some d
  | _ => none

theorem pending?_eq_some_iff :
    i.pending? name = some d ↔ i.cells.get? name = some (d, .unresolved) := by
  unfold pending?
  split
  · rename_i own hcell
    simp [hcell]
  · rename_i hcell
    constructor
    · intro h
      cases h
    · intro h
      exact absurd h (hcell d)

/-- Nothing hides a delegate that has a cell. -/
def Exposed (i : Instance) : Prop :=
  ∀ name d c, i.cells.get? name = some (d, c) →
    i.attrs.get? name = none ∧
      ∃ layer own origin, i.compiled.member? name = some (layer, ⟨.delegate own, origin⟩)

/-! ## What a look-up changes -/

/-- Nothing changed but that some cells which waited got values. -/
structure Resolves (i j : Instance) : Prop where
  rest : j = { i with cells := j.cells }
  cells : ∀ name, j.cells.get? name = i.cells.get? name ∨
    ∃ d v, i.cells.get? name = some (d, .unresolved) ∧ j.cells.get? name = some (d, .resolved v)

instance : Std.Refl Resolves where
  refl _ := ⟨rfl, fun _ => .inl rfl⟩

instance : Trans Resolves Resolves Resolves where
  trans := by
    rintro i j k ⟨hj, hij⟩ ⟨hk, hjk⟩
    refine ⟨by rw [hk, hj], fun name => ?_⟩
    rcases hjk name with hname | ⟨d, v, hd, hv⟩
    · rw [hname]
      exact hij name
    · rcases hij name with hname | ⟨_, _, _, hv'⟩
      · exact .inr ⟨d, v, hname ▸ hd, hv⟩
      · rw [hd] at hv'
        cases hv'

/-- A cell that is not waiting stays as it is. -/
theorem Resolves.get?_eq (h : i.Resolves j) {c : Cell} (hcell : i.cells.get? name = some (d, c))
    (hc : c ≠ .unresolved) : j.cells.get? name = some (d, c) := by
  rcases h.cells name with hname | ⟨_, _, hd, _⟩
  · rw [hname, hcell]
  · rw [hcell] at hd
    cases hd
    exact absurd rfl hc

theorem get?_putCell (i : Instance) (name other : String) (d : Delegate) (c : Cell) :
    (i.putCell name d c).cells.get? other =
      if name = other then some (d, c) else i.cells.get? other :=
  Entries.get?_insert i.cells name other (d, c)

/-- If what happened while a cell was marked only resolved others, it is all the same whether the
cell is then given a value or waits again. -/
theorem Resolves.putCell (hwaits : i.cells.get? name = some (d, .unresolved))
    (h : (i.putCell name d .resolving).Resolves j) {c : Cell}
    (hc : c = .unresolved ∨ ∃ v, c = .resolved v) : i.Resolves (j.putCell name d c) := by
  refine ⟨by rw [h.rest]; rfl, fun other => ?_⟩
  rw [get?_putCell]
  split
  · rename_i hother
    subst hother
    rcases hc with rfl | ⟨v, rfl⟩
    · exact .inl hwaits.symm
    · exact .inr ⟨d, v, hwaits, rfl⟩
  · rename_i hother
    have hcells := h.cells other
    rw [get?_putCell, if_neg hother] at hcells
    exact hcells

/-- The cell is still marked when the outcome is settled. -/
theorem Resolves.cell_eq (h : (i.putCell name d .resolving).Resolves j) :
    j.cell name = .resolving := by
  have hmarked : (i.putCell name d .resolving).cells.get? name = some (d, .resolving) := by
    rw [get?_putCell, if_pos rfl]
  unfold cell
  rw [h.get?_eq hmarked (by simp)]
  rfl

/-- A look-up gives values to cells, and that is all. -/
theorem lookup_resolves (name : String) (i : Instance) : i.Resolves (lookup name i).2 := by
  fun_induction lookup name i with
  | case7 name i _ _ _ _ _ d c hcell hanswer path begun first j hfirst answer c' hsettle ih =>
      have hwaits : i.cells.get? name = some (d, .unresolved) := by
        cases c with
        | unresolved => exact hcell
        | resolving => cases hanswer
        | resolved v => cases hanswer
      have hj : begun.Resolves j := by
        split at hfirst
        · cases hfirst
          exact Std.Refl.refl begun
        · rw [hfirst] at ih
          exact ih
      rw [hj.cell_eq] at hsettle
      refine hj.putCell hwaits ?_
      rcases d.conclude_cases i.describe first with ⟨v, hv⟩ | ⟨e, he⟩
      · exact .inr ⟨v, (congrArg Prod.snd (hsettle.symm.trans hv))⟩
      · exact .inl (congrArg Prod.snd (hsettle.symm.trans he))
  | _ => exact Std.Refl.refl _

@[simp] theorem seek_empty (i : Instance) : seek "" i = (.ok none, i) := rfl

theorem seek_of_ne (h : name ≠ "") : seek name = lookup name :=
  if_neg h

/-- An empty name is not looked up. -/
theorem seek_cases {P : Except Error (Option Value) × Instance → Prop} (hempty : P (.ok none, i))
    (h : P (lookup name i)) : P (seek name i) := by
  by_cases hname : name = ""
  · rw [hname]
    exact hempty
  · rw [seek_of_ne hname]
    exact h

theorem seek_resolves (name : String) (i : Instance) : i.Resolves (seek name i).2 :=
  seek_cases (P := fun r => i.Resolves r.2) (Std.Refl.refl i) (lookup_resolves name i)

/-! ## What a look-up finds -/

/-- What is under a delegate's name is up to its cell. -/
theorem lookup_cell (hi : i.Exposed) {c : Cell} (hcell : i.cells.get? name = some (d, c)) :
    lookup name i =
      match d.answer? c with
      | some answer => (answer.map some, i)
      | none =>
          let first := seek d.head (i.putCell name d .resolving)
          let outcome := d.settle (first.1.bind ((Path.ofText d.path).follow i.describe))
            (first.2.cell name)
          (outcome.1.map some, first.2.putCell name d outcome.2) := by
  obtain ⟨hattrs, layer, own, origin, hmember⟩ := hi name d c hcell
  rw [lookup]
  simp only [hattrs, hmember]
  split
  · rename_i hnone
    rw [hcell] at hnone
    cases hnone
  · rename_i d' c' hsome
    rw [hcell] at hsome
    cases hsome
    split
    · rename_i answer hanswer
      rw [hanswer]
    · rename_i hanswer
      rw [hanswer]
      by_cases hhead : d.head = ""
      · have hhead' : (Path.ofText d.path).head = "" := hhead
        simp only [hhead, hhead', if_true, seek_empty]
      · have hhead' : (Path.ofText d.path).head ≠ "" := hhead
        simp only [seek_of_ne hhead, hhead', if_false]
        rfl

/-- A delegate whose cell doesn't wait answers by itself. -/
theorem lookup_answer (hi : i.Exposed) {c : Cell} (hcell : i.cells.get? name = some (d, c))
    {answer : Except Error Value} (h : d.answer? c = some answer) :
    lookup name i = (answer.map some, i) := by
  rw [lookup_cell hi hcell, h]

/-- A delegate whose cell waits: the head of its path is looked up with the cell marked. -/
theorem lookup_pending (hi : i.Exposed) (h : i.pending? name = some d) :
    lookup name i =
      let first := seek d.head (i.putCell name d .resolving)
      let outcome := d.conclude i.describe first.1
      (outcome.1.map some, first.2.putCell name d outcome.2) := by
  have hmarked := (seek_resolves d.head (i.putCell name d .resolving)).cell_eq
  rw [lookup_cell hi (pending?_eq_some_iff.mp h)]
  simp only [Delegate.answer?, hmarked]
  rfl

/-- What has no cell is what was placed, or else a plain member. -/
theorem lookup_bare (h : i.cells.get? name = none) :
    lookup name i =
      (.ok ((i.attrs.get? name).or
        (match i.compiled.member? name with
          | some (_, ⟨.value v, _⟩) => some v
          | _ => none)), i) := by
  rw [lookup]
  cases hattrs : i.attrs.get? name with
  | some v => rfl
  | none =>
      rcases hmember : i.compiled.member? name with _ | ⟨layer, content, origin⟩
      · rfl
      · cases content with
        | value v | deferred => rfl
        | delegate own =>
            dsimp only
            split
            · rfl
            · rename_i hsome
              rw [h] at hsome
              cases hsome

/-- Where nothing waits, a look-up changes nothing. -/
theorem lookup_settled (hi : i.Exposed) (h : i.pending? name = none) :
    (lookup name i).2 = i := by
  rcases hcell : i.cells.get? name with _ | ⟨d, c⟩
  · rw [lookup_bare hcell]
  · cases c with
    | unresolved =>
        rw [pending?_eq_some_iff.mpr hcell] at h
        cases h
    | resolving => rw [lookup_answer hi hcell rfl]
    | resolved v => rw [lookup_answer hi hcell rfl]

/-- Where nothing waits, what is found depends on what is there under the name alone. -/
theorem lookup_settled_congr (hi : i.Exposed) (hj : j.Exposed) (h : i.pending? name = none)
    (hcompiled : j.compiled = i.compiled) (hattrs : j.attrs.get? name = i.attrs.get? name)
    (hcells : j.cells.get? name = i.cells.get? name) :
    (lookup name j).1 = (lookup name i).1 := by
  rcases hcell : i.cells.get? name with _ | ⟨d, c⟩
  · rw [lookup_bare hcell, lookup_bare (hcells.trans hcell), hcompiled, hattrs]
  · have hcell' := hcells.trans hcell
    cases c with
    | unresolved =>
        rw [pending?_eq_some_iff.mpr hcell] at h
        cases h
    | resolving => rw [lookup_answer hi hcell rfl, lookup_answer hj hcell' rfl]
    | resolved v => rw [lookup_answer hi hcell rfl, lookup_answer hj hcell' rfl]

theorem describe_congr (h : j.compiled = i.compiled) : j.describe = i.describe := by
  unfold describe
  rw [h]

theorem seek_congr (h : name ≠ "" → (lookup name j).1 = (lookup name i).1) :
    (seek name j).1 = (seek name i).1 := by
  by_cases hname : name = ""
  · rw [hname]
    rfl
  · rw [seek_of_ne hname]
    exact h hname

/-- What is at the end of a path depends on what is found under its first segment. -/
theorem get_congr {path : String} (hcompiled : j.compiled = i.compiled)
    (h : (lookup (Path.ofText path).head j).1 = (lookup (Path.ofText path).head i).1) :
    (get path j).1 = (get path i).1 := by
  rw [get_apply, get_apply, seek_congr fun _ => h, describe_congr hcompiled]

/-! ## Induction -/

theorem pending?_putCell (i : Instance) (name other : String) (d : Delegate) :
    (i.putCell name d .resolving).pending? other =
      if name = other then none else i.pending? other := by
  unfold pending?
  rw [get?_putCell]
  by_cases hother : name = other
  · simp [hother]
  · simp [hother]

theorem Exposed.putCell (hi : i.Exposed) {own : Delegate} {c : Cell}
    (h : i.cells.get? name = some (own, c)) (d : Delegate) (c' : Cell) :
    (i.putCell name d c').Exposed := by
  intro other d' c'' hcell
  rw [get?_putCell] at hcell
  split at hcell
  · rename_i hother
    subst hother
    exact hi name own c h
  · exact hi other d' c'' hcell

theorem Exposed.mark (hi : i.Exposed) (h : i.pending? name = some d) :
    (i.putCell name d .resolving).Exposed :=
  hi.putCell (pending?_eq_some_iff.mp h) d .resolving

theorem Exposed.resolves (hi : i.Exposed) (h : i.Resolves j) : j.Exposed := by
  intro name d c hcell
  rw [h.rest]
  rcases h.cells name with hname | ⟨own, v, hown, _⟩
  · exact hi name d c (hname ▸ hcell)
  · exact hi name own _ hown

/-- Induction along the delegates that a look-up resolves: one cell less waits while the head of a
path is looked up. -/
theorem lookup_induct {motive : Instance → String → Prop}
    (settled : ∀ i name, i.Exposed → i.pending? name = none → motive i name)
    (pending : ∀ i name d, i.Exposed → i.pending? name = some d →
      (∀ other, motive (i.putCell name d .resolving) other) → motive i name)
    (hi : i.Exposed) (name : String) : motive i name := by
  induction hn : i.waiting using Nat.strongRecOn generalizing i name with
  | ind n ih =>
      cases h : i.pending? name with
      | none => exact settled i name hi h
      | some d =>
          refine pending i name d hi h fun other => ?_
          have hless := waiting_putCell_lt (pending?_eq_some_iff.mp h) rfl
          exact ih _ (hn ▸ hless) (hi.mark h) other rfl

end Instance

end AppAssembly
