import AppAssembly.Ledger

/-!
# Who answers for a name

A ledger lists names under the declarations that answer for them. What is asked of it is the first
declaration that lists a name (`recordedBy?`); here stands what that becomes when names are recorded
or dropped.
-/

namespace AppAssembly.NameRecord

variable {listed names : List String} {name : String}

theorem mem_addNew : name ∈ addNew listed names ↔ name ∈ listed ∨ name ∈ names := by
  unfold addNew
  induction names generalizing listed with
  | nil => simp
  | cons first rest ih =>
      rw [List.foldl_cons, ih]
      by_cases h : first ∈ listed
      · simp only [if_pos h, List.mem_cons]
        constructor
        · rintro (hl | hr)
          · exact .inl hl
          · exact .inr (.inr hr)
        · rintro (hl | rfl | hr)
          · exact .inl hl
          · exact .inl h
          · exact .inr hr
      · rw [if_neg h, List.mem_append, List.mem_singleton, List.mem_cons, or_assoc]

theorem recordedBy?_cons (origin : Origin) (listed : List String) (r : NameRecord) :
    recordedBy? ((origin, listed) :: r) name =
      if name ∈ listed then some origin else recordedBy? r name := by
  unfold recordedBy?
  by_cases h : name ∈ listed
  · simp [h]
  · simp [h]

/-- Nobody answers for a name exactly if it is listed nowhere. -/
theorem recordedBy?_eq_none_iff (r : NameRecord) : r.recordedBy? name = none ↔ name ∉ r.names := by
  unfold recordedBy? NameRecord.names
  simp only [Option.map_eq_none_iff, List.find?_eq_none, decide_eq_true_eq, mem_addNew,
    List.not_mem_nil, false_or, List.mem_flatten, Entries.values, List.mem_map]
  constructor
  · rintro h ⟨listed, ⟨entry, hentry, rfl⟩, hname⟩
    exact h entry hentry hname
  · intro h entry hentry hname
    exact h ⟨entry.2, ⟨entry, hentry, rfl⟩, hname⟩

theorem drop_cons (origin : Origin) (listed : List String) (r : NameRecord) (names : List String) :
    NameRecord.drop ((origin, listed) :: r) names =
      if (listed.filter (· ∉ names)).isEmpty then NameRecord.drop r names
      else (origin, listed.filter (· ∉ names)) :: NameRecord.drop r names := by
  unfold NameRecord.drop Entries.mapValues
  rw [List.map_cons, List.filter_cons]
  cases (listed.filter (· ∉ names)).isEmpty <;> rfl

/-- Names that are dropped are listed nowhere, all others where they were. -/
theorem recordedBy?_drop (r : NameRecord) (names : List String) :
    (r.drop names).recordedBy? name = if name ∈ names then none else r.recordedBy? name := by
  induction r with
  | nil => simp [NameRecord.drop, recordedBy?, Entries.mapValues]
  | cons entry r ih =>
      obtain ⟨origin, listed⟩ := entry
      have hkept : name ∈ listed.filter (· ∉ names) ↔ name ∈ listed ∧ name ∉ names := by
        simp
      rw [drop_cons, recordedBy?_cons]
      split
      · -- a list that has nothing left did not have the name, or the name is dropped
        rename_i hempty
        rw [List.isEmpty_iff] at hempty
        have hgone : name ∈ listed → name ∈ names := by
          intro hl
          apply Decidable.byContradiction
          intro hn
          have := hkept.mpr ⟨hl, hn⟩
          rw [hempty] at this
          cases this
        rw [ih]
        by_cases hn : name ∈ names
        · simp [hn]
        · simp [hn, mt hgone hn]
      · rw [recordedBy?_cons, ih]
        by_cases hn : name ∈ names
        · simp [hn]
        · simp [hn]

/-- A name nobody answers for is answered for by the origin it is recorded under. -/
theorem recordedBy?_add_of_none {r : NameRecord} (h : r.recordedBy? name = none) (origin : Origin)
    (names : List String) :
    (r.add origin names).recordedBy? name = if name ∈ names then some origin else none := by
  unfold NameRecord.add
  cases names with
  | nil => simpa using h
  | cons first rest =>
      simp only [List.isEmpty_cons, Bool.false_eq_true, if_false]
      generalize first :: rest = names
      induction r with
      | nil => simp [Entries.insert, mem_addNew, recordedBy?]
      | cons entry r ih =>
          obtain ⟨own, listed⟩ := entry
          rw [recordedBy?_cons] at h
          split at h
          · cases h
          · rename_i hlisted
            by_cases hown : own = origin
            · subst hown
              simp [Entries.insert, Entries.get?_cons, recordedBy?_cons, mem_addNew, hlisted, h]
            · simp only [Entries.insert, Entries.get?_cons, hown, if_false, recordedBy?_cons,
                hlisted]
              exact ih h

/-- A name that is not recorded is answered for as before. -/
theorem recordedBy?_add_of_not_mem (r : NameRecord) (origin : Origin) (h : name ∉ names) :
    (r.add origin names).recordedBy? name = r.recordedBy? name := by
  unfold NameRecord.add
  split
  · rfl
  · induction r with
    | nil => simp [Entries.insert, mem_addNew, recordedBy?, h]
    | cons entry r ih =>
        obtain ⟨own, listed⟩ := entry
        by_cases hown : own = origin
        · subst hown
          simp [Entries.insert, Entries.get?_cons, recordedBy?_cons, mem_addNew, h]
        · simp only [Entries.insert, Entries.get?_cons, hown, if_false, recordedBy?_cons, ih]

/-! ## What is listed -/

theorem nodup_addNew (h : listed.Nodup) (names : List String) : (addNew listed names).Nodup := by
  unfold addNew
  induction names generalizing listed with
  | nil => exact h
  | cons first rest ih =>
      rw [List.foldl_cons]
      split
      · exact ih h
      · rename_i hnew
        refine ih (List.nodup_append.mpr ⟨h, by simp, ?_⟩)
        intro a ha b hb hab
        rw [List.mem_singleton] at hb
        exact hnew (hb ▸ hab ▸ ha)

/-- Names that a list lacks are appended to it as they would be to none. -/
theorem addNew_append (base listed : List String) (h : ∀ name ∈ names, name ∉ base) :
    addNew (base ++ listed) names = base ++ addNew listed names := by
  unfold addNew
  induction names generalizing listed with
  | nil => rfl
  | cons first rest ih =>
      obtain ⟨hfirst, hrest⟩ := List.forall_mem_cons.mp h
      rw [List.foldl_cons, List.foldl_cons]
      by_cases hlisted : first ∈ listed
      · rw [if_pos hlisted, if_pos (List.mem_append_right base hlisted), ih listed hrest]
      · rw [if_neg hlisted, if_neg, List.append_assoc, ih _ hrest]
        rw [List.mem_append, not_or]
        exact ⟨hfirst, hlisted⟩

theorem nodup_names (r : NameRecord) : r.names.Nodup :=
  nodup_addNew List.nodup_nil _

/-- The names of a record are those that some origin lists. -/
theorem mem_names_iff (r : NameRecord) :
    name ∈ r.names ↔ ∃ origin listed, (origin, listed) ∈ r ∧ name ∈ listed := by
  unfold NameRecord.names Entries.values
  simp only [mem_addNew, List.not_mem_nil, false_or, List.mem_flatten, List.mem_map, Prod.exists,
    exists_eq_right]
  constructor
  · rintro ⟨listed, ⟨origin, hentry⟩, hname⟩
    exact ⟨origin, listed, hentry, hname⟩
  · rintro ⟨origin, listed, hentry, hname⟩
    exact ⟨listed, ⟨origin, hentry⟩, hname⟩

/-- Somebody answers for a name exactly if it is listed somewhere. -/
theorem mem_names_iff_isSome (r : NameRecord) :
    name ∈ r.names ↔ (r.recordedBy? name).isSome := by
  have hnone : r.recordedBy? name = none ↔ name ∉ r.names := r.recordedBy?_eq_none_iff
  cases hby : r.recordedBy? name with
  | none => simpa using hnone.mp hby
  | some origin => simpa [hby] using hnone

/-- Dropping names takes them from what is listed and leaves the order of the others. -/
theorem flatten_drop (r : NameRecord) (names : List String) :
    (Entries.values (r.drop names)).flatten = (Entries.values r).flatten.filter (· ∉ names) := by
  induction r with
  | nil => rfl
  | cons entry r ih =>
      obtain ⟨origin, listed⟩ := entry
      show _ = (listed ++ (Entries.values r).flatten).filter (· ∉ names)
      rw [drop_cons, List.filter_append, ← ih]
      split
      · rename_i hempty
        rw [List.isEmpty_iff.mp hempty, List.nil_append]
      · rfl

/-- Names that nobody lists are listed once more each, under the origin they are recorded under. -/
theorem flatten_add (r : NameRecord) (origin : Origin)
    (h : ∀ name ∈ names, name ∉ (Entries.values r).flatten) :
    (Entries.values (r.add origin names)).flatten.Perm
      ((Entries.values r).flatten ++ addNew [] names) := by
  unfold NameRecord.add
  split
  · rename_i hempty
    rw [List.isEmpty_iff.mp hempty]
    exact .of_eq (List.append_nil _).symm
  · induction r with
    | nil => exact .of_eq (List.append_nil _)
    | cons entry r ih =>
        obtain ⟨own, listed⟩ := entry
        have hlisted : ∀ name ∈ names, name ∉ listed := fun name hname hl =>
          h name hname (List.mem_append_left _ hl)
        have hrest : ∀ name ∈ names, name ∉ (Entries.values r).flatten := fun name hname hl =>
          h name hname (List.mem_append_right listed hl)
        by_cases hown : own = origin
        · have hnew : addNew listed names = listed ++ addNew [] names := by
            simpa using addNew_append listed [] hlisted
          simp only [Entries.get?_cons, Entries.insert, hown, if_true, Option.getD_some, hnew,
            Entries.values, List.map_cons, List.flatten_cons, List.append_assoc]
          exact List.Perm.append_left listed List.perm_append_comm
        · simp only [Entries.get?_cons, Entries.insert, hown, if_false]
          show (listed ++ _).Perm (listed ++ (Entries.values r).flatten ++ _)
          rw [List.append_assoc]
          exact List.Perm.append_left listed (ih hrest)

end AppAssembly.NameRecord

namespace AppAssembly.Ledger

variable {l : Ledger} {name : String}

/-- Whoever supplies a name last answers for it. -/
theorem addedBy?_recordAdded (l : Ledger) (origin : Origin) (names : List String) :
    (l.recordAdded origin names).addedBy? name =
      if name ∈ names then some origin else l.addedBy? name := by
  unfold addedBy? recordAdded
  by_cases h : name ∈ names
  · have hnone : (l.added.drop names).recordedBy? name = none := by
      rw [NameRecord.recordedBy?_drop, if_pos h]
    rw [NameRecord.recordedBy?_add_of_none hnone, if_pos h, if_pos h]
  · rw [NameRecord.recordedBy?_add_of_not_mem _ _ h, NameRecord.recordedBy?_drop, if_neg h,
      if_neg h]

/-- Nobody answers any longer for a name that was removed or replaced. -/
theorem addedBy?_normalise (l : Ledger) :
    l.normalise.addedBy? name =
      if (l.removedBy? name).isSome ∨ (l.replacedBy? name).isSome then none
      else l.addedBy? name := by
  unfold addedBy? normalise removedBy? replacedBy?
  rw [NameRecord.recordedBy?_drop]
  simp only [List.mem_append, NameRecord.mem_names_iff_isSome]

end AppAssembly.Ledger
