import AppAssembly.Proofs.Cells

/-!
# What holds at any moment

A move resolves cells, sets one name, or places what was deferred (`Move.effect`). From this follows
what holds at every moment in the life of an instance: nothing hides a delegate
(`Reachable.exposed`), and no cell is being resolved (`Reachable.idle`).
-/

namespace AppAssembly

open Instance

variable {i j : Instance} {name : String} {v : Value}

namespace Instance

/-! ## What setting changes -/

/-- All that setting a name can do. -/
theorem set_cases (name : String) (v : Value) (i : Instance) :
    (∃ d c, i.cells.get? name = some (d, c) ∧
      set name v i = (.ok (), (i.putCell name d (.resolved v)).record name v)) ∨
    (i.cells.get? name = none ∧ i.awaits name = false ∧
      set name v i = (.ok (), (i.place name v).record name v)) ∨
    ∃ e, set name v i = (.error e, i) := by
  unfold set
  rcases hcell : i.cells.get? name with _ | ⟨d, c⟩
  · dsimp only
    split
    · exact .inr (.inr ⟨_, rfl⟩)
    · split
      · exact .inr (.inr ⟨_, rfl⟩)
      · rename_i hawaits
        exact .inr (.inl ⟨rfl, eq_false_of_ne_true hawaits, rfl⟩)
  · exact .inl ⟨d, c, rfl, rfl⟩

/-! ## What creating changes -/

/-- A name awaits its value exactly if its winning member is deferred and things were not created
yet. -/
theorem awaits_eq_true_iff : i.awaits name = true ↔
    i.materialized = false ∧
      ∃ layer origin, i.compiled.member? name = some (layer, ⟨.deferred, origin⟩) := by
  unfold awaits
  rcases i.compiled.member? name with _ | ⟨layer, content, origin⟩
  · simp
  · cases content <;> simp

/-- Nothing but names that were waiting for it got a value. -/
structure Places (i j : Instance) : Prop where
  compiled : j.compiled = i.compiled
  cells : j.cells = i.cells
  written : j.written = i.written
  materialized : i.materialized = true → j.materialized = true
  attrs : ∀ name, i.awaits name = false → j.attrs.get? name = i.attrs.get? name

instance : Std.Refl Places where
  refl _ := ⟨rfl, rfl, rfl, id, fun _ _ => rfl⟩

/-- Nothing but some names got a value. -/
structure Fills (names : List String) (i j : Instance) : Prop where
  compiled : j.compiled = i.compiled
  cells : j.cells = i.cells
  written : j.written = i.written
  materialized : j.materialized = i.materialized
  attrs : ∀ name, name ∉ names → j.attrs.get? name = i.attrs.get? name

instance (names : List String) : Std.Refl (Fills names) where
  refl _ := ⟨rfl, rfl, rfl, rfl, fun _ _ => rfl⟩

instance (names : List String) : Trans (Fills names) (Fills names) (Fills names) where
  trans h h' := ⟨h'.compiled.trans h.compiled, h'.cells.trans h.cells,
    h'.written.trans h.written, h'.materialized.trans h.materialized,
    fun name hname => (h'.attrs name hname).trans (h.attrs name hname)⟩

theorem create_fills (make : Builder) {names : List String} {item : Deferred}
    (h : item.identity ∈ names) : (create make item).Keeps (Fills names) := by
  refine Act.Keeps.bind (fun i => ⟨rfl, rfl, rfl, rfl, fun _ _ => rfl⟩) fun v i => ?_
  refine ⟨rfl, rfl, rfl, rfl, fun name hname => ?_⟩
  have hne : item.identity ≠ name := fun heq => hname (heq ▸ h)
  exact Entries.get?_insert_of_ne _ _ hne

/-- What is built is deferred under its name. -/
theorem member?_of_mem_deferred {t : CompiledType} {item : Deferred} (h : item ∈ t.deferred) :
    ∃ layer origin, t.member? item.identity = some (layer, ⟨.deferred, origin⟩) := by
  obtain ⟨⟨layer, item'⟩, _, hitem⟩ := List.mem_filterMap.mp h
  dsimp only at hitem
  split at hitem
  · rename_i hdefers
    cases hitem
    unfold CompiledType.defers at hdefers
    split at hdefers
    · rename_i owner origin hmember
      exact ⟨owner, origin, hmember⟩
    · cases hdefers
  · cases hitem

theorem createThings_places (make : Builder) (i : Instance) :
    i.Places (createThings make i).2 := by
  cases hmisstep : i.misstep? .createThings with
  | some misstep =>
      rw [createThings, undertake_refused hmisstep]
      exact Std.Refl.refl i
  | none =>
      have hnew : i.materialized = false := by
        cases hm : i.materialized with
        | false => rfl
        | true =>
            obtain ⟨misstep, hsome⟩ := misstep?_createThings hm
            rw [hmisstep] at hsome
            cases hsome
      have hfills : (i.begun .createThings).Fills (i.compiled.deferred.map Deferred.identity)
          (createAll make (i.begun .createThings)).2 :=
        Act.keeps_forEach (fun item hitem => create_fills make (List.mem_map_of_mem hitem)) _
      rcases hrun : createAll make (i.begun .createThings) with ⟨r, k⟩
      rw [hrun] at hfills
      rw [createThings, undertake_begun hmisstep hrun]
      refine ⟨hfills.compiled, hfills.cells, hfills.written, fun _ => ?_, fun name hname => ?_⟩
      · exact hfills.materialized.trans (by simp [begun])
      · refine hfills.attrs name fun hmem => ?_
        -- whatever is created has been waiting for it
        obtain ⟨item, hitem, rfl⟩ := List.mem_map.mp hmem
        have hawaits := awaits_eq_true_iff.mpr ⟨hnew, member?_of_mem_deferred hitem⟩
        rw [hname] at hawaits
        cases hawaits

/-! ## What a move changes -/

theorem get_resolves (path : String) (i : Instance) : i.Resolves (get path i).2 := by
  rw [get_apply]
  exact seek_resolves _ i

/-- A move resolves cells, sets a name or places what was deferred. -/
theorem Move.effect (h : Move i j) :
    i.Resolves j ∨ (∃ name v, j = (Instance.set name v i).2) ∨ i.Places j := by
  cases h with
  | get path => exact .inl (get_resolves path i)
  | set name v => exact .inr (.inl ⟨name, v, rfl⟩)
  | createThings make => exact .inr (.inr (createThings_places make i))
  | enter hlater hadmitted =>
      refine .inr (.inr ⟨rfl, rfl, rfl, fun h => ?_, fun _ _ => rfl⟩)
      simp [begun, h]
  | work w hw => exact .inr (.inr ⟨rfl, rfl, rfl, id, fun _ _ => rfl⟩)

/-! ## Invariants -/

/-- A new instance has a waiting cell for every delegate among the winning members. -/
theorem freshCells_get? (t : CompiledType) (name : String) {d : Delegate} {c : Cell}
    (h : (freshCells t).get? name = some (d, c)) :
    c = .unresolved ∧ ∃ layer origin, t.member? name = some (layer, ⟨.delegate d, origin⟩) := by
  have hmem := Entries.mem_of_get?_eq_some h
  obtain ⟨_, _, hentry⟩ := List.mem_filterMap.mp hmem
  split at hentry
  · rename_i layer own origin hmember
    cases hentry
    exact ⟨rfl, layer, origin, hmember⟩
  · cases hentry

theorem Exposed.places (hi : i.Exposed) (h : i.Places j) : j.Exposed := by
  intro name d c hcell
  rw [h.cells] at hcell
  obtain ⟨hattrs, layer, own, origin, hmember⟩ := hi name d c hcell
  have hawaits : i.awaits name = false := by
    unfold awaits
    rw [hmember]
  exact ⟨(h.attrs name hawaits).trans hattrs, layer, own, origin, h.compiled ▸ hmember⟩

theorem Exposed.set (hi : i.Exposed) (name : String) (v : Value) :
    (Instance.set name v i).2.Exposed := by
  rcases set_cases name v i with ⟨d, c, hcell, hset⟩ | ⟨hcell, _, hset⟩ | ⟨e, hset⟩
  · rw [hset]
    exact hi.putCell hcell d _
  · rw [hset]
    intro other d c hother
    have hne : name ≠ other := by
      rintro rfl
      exact absurd (hcell.symm.trans hother) (by simp)
    obtain ⟨hattrs, hmember⟩ := hi other d c hother
    exact ⟨(Entries.get?_insert_of_ne _ _ hne).trans hattrs, hmember⟩
  · rw [hset]
    exact hi

/-- No cell is being resolved. -/
def Idle (i : Instance) : Prop :=
  ∀ name d, i.cells.get? name ≠ some (d, .resolving)

theorem Idle.resolves (hi : i.Idle) (h : i.Resolves j) : j.Idle := by
  intro name d hcell
  rcases h.cells name with hname | ⟨_, _, _, hv⟩
  · exact hi name d (hname ▸ hcell)
  · rw [hcell] at hv
    cases hv

theorem Idle.set (hi : i.Idle) (name : String) (v : Value) : (Instance.set name v i).2.Idle := by
  rcases set_cases name v i with ⟨d, c, _, hset⟩ | ⟨_, _, hset⟩ | ⟨e, hset⟩
  · rw [hset]
    intro other own hother
    have hother' := (get?_putCell i name other d (.resolved v)).symm.trans hother
    split at hother'
    · cases hother'
    · exact hi other own hother'
  · rw [hset]
    exact hi
  · rw [hset]
    exact hi

theorem Reachable.exposed (h : Reachable i) : i.Exposed := by
  induction h with
  | new t runner made journal =>
      intro name d c hcell
      obtain ⟨_, layer, origin, hmember⟩ := freshCells_get? t name hcell
      exact ⟨rfl, layer, d, origin, hmember⟩
  | move _ hmove ih =>
      rcases hmove.effect with h | ⟨name, v, rfl⟩ | h
      · exact ih.resolves h
      · exact ih.set name v
      · exact ih.places h

theorem Reachable.idle (h : Reachable i) : i.Idle := by
  induction h with
  | new t runner made journal =>
      intro name d hcell
      cases (freshCells_get? t name hcell).1
  | move _ hmove ih =>
      rcases hmove.effect with h | ⟨name, v, rfl⟩ | h
      · exact ih.resolves h
      · exact ih.set name v
      · intro name d hcell
        exact ih name d (h.cells ▸ hcell)

end Instance

end AppAssembly
