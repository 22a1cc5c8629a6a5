import AppAssembly.Proofs.Cells
import AppAssembly.Proofs.Courses

/-!
# Who is blamed for a failure

A mistake of a developer that is reported together with the declaration behind it is an accusation.
A path on its own knows no declaration, so whoever looks one up on behalf of a declaration turns the
bare report into an accusation, and a delegate does so for its own path. Hence looking up a name
fails with nothing but accusations (`accuses_of_lookup`), and looking up a path accuses somebody or
misses the very path that was asked for (`get_error`).
-/

namespace AppAssembly

open Instance

/-! ## Accusations -/

/-- The error is the bare report that a path leads nowhere. -/
def Error.isPathNotFound : Error → Bool
  | .pathNotFound _ => true
  | _ => false

/-- The declaration that an error names. -/
def Error.accused? : Error → Option String
  | .developer misuse => misuse.context.get? "origin"
  | .requirement _ _ _ origin | .requirementAttribute _ _ _ _ _ origin => some origin.display
  | .unexpectedValue _ _ context => context.get? "origin"
  | _ => none

/-- The error is a mistake of a developer, and names the declaration that made it. -/
def Error.Accuses (e : Error) : Prop :=
  e.isDeveloper = true ∧ e.accused?.isSome = true

theorem Context.get?_isSome_iff (c : Context) (key : String) :
    (c.get? key).isSome ↔ key ∈ Entries.keys c.fields := by
  simp [get?, Entries.keys]

theorem Context.mem_keys_foldl_insert {key : String} (fields : List (String × String))
    {c : Context} (h : key ∈ Entries.keys c.fields) :
    key ∈ Entries.keys (fields.foldl (fun c field => c.insert field.1 field.2) c).fields := by
  induction fields generalizing c with
  | nil => exact h
  | cons field rest ih => exact ih (Entries.mem_keys_insertSorted.mpr (.inr h))

/-- Further fields take no origin away. -/
theorem Context.get?_ofOrigin (origin : Origin) (fields : List (String × String)) :
    ((ofOrigin origin fields).get? "origin").isSome = true := by
  rw [get?_isSome_iff]
  exact mem_keys_foldl_insert fields (Entries.mem_keys_insertSorted.mpr (.inl rfl))

namespace Error

theorem accuses_requirement (use : PathUse) (missing : NotFound) (identity : String)
    (origin : Origin) : (requirement use missing identity origin).Accuses :=
  ⟨rfl, rfl⟩

theorem accuses_requirementAttribute (use : PathUse) (path object needed identity : String)
    (origin : Origin) : (requirementAttribute use path object needed identity origin).Accuses :=
  ⟨rfl, rfl⟩

theorem accuses_construction (name calling callingWith signature reason : String)
    (origin : Origin) :
    (developer (.construction name calling callingWith signature reason origin)).Accuses :=
  ⟨rfl, Context.get?_ofOrigin origin _⟩

theorem accuses_selfReference (d : Delegate) : d.selfReference.Accuses :=
  ⟨rfl, Context.get?_ofOrigin d.origin _⟩

theorem accuses_notCallable (t : CompiledType) (method : Method) (v : Value) :
    (Instance.notCallable t method v).Accuses :=
  ⟨rfl, Context.get?_ofOrigin method.origin _⟩

theorem Accuses.isPathNotFound {e : Error} (h : e.Accuses) : e.isPathNotFound = false := by
  cases e with
  | pathNotFound missing => cases h.1
  | _ => rfl

theorem intoRequirement_of_other {e : Error} (h : e.isPathNotFound = false) (use : PathUse)
    (identity : String) (origin : Origin) : e.intoRequirement use identity origin = e := by
  cases e with
  | pathNotFound missing => cases h
  | _ => rfl

/-- On behalf of a declaration, the bare report on a path becomes an accusation, and an accusation
stays what it is. -/
theorem accuses_intoRequirement {e : Error} (h : e.Accuses ∨ e.isPathNotFound = true)
    (use : PathUse) (identity : String) (origin : Origin) :
    (e.intoRequirement use identity origin).Accuses := by
  rcases h with h | h
  · rwa [intoRequirement_of_other h.isPathNotFound]
  · cases e with
    | pathNotFound missing => exact accuses_requirement use missing identity origin
    | _ => cases h

end Error

/-! ## Looking up -/

theorem Except.map_eq_error {ε α β : Type} {r : Except ε α} {f : α → β} {e : ε}
    (h : r.map f = .error e) : r = .error e := by
  cases r with
  | ok a => cases h
  | error other =>
      cases h
      rfl

/-- A path that can't be followed is the one that was asked for. -/
theorem Path.follow_cases (text root : String) (first : Option Value) :
    (∃ v, (Path.ofText text).follow root first = .ok v) ∨
      ∃ found, (Path.ofText text).follow root first =
        .error (.pathNotFound ⟨text, root, found⟩) := by
  have htext : (Path.ofText text).text = text := rfl
  unfold follow notFound
  rw [htext]
  cases first with
  | none => exact .inr ⟨[], rfl⟩
  | some v =>
      dsimp only
      split
      · exact .inl ⟨_, rfl⟩
      · exact .inr ⟨_, rfl⟩

/-- Following a path adds no more than the bare report on it. -/
theorem Path.follow_error {text root : String} {first : Except Error (Option Value)} {e : Error}
    (h : first.bind ((Path.ofText text).follow root) = .error e) :
    first = .error e ∨ ∃ found, e = .pathNotFound ⟨text, root, found⟩ := by
  cases first with
  | error other =>
      cases h
      exact .inl rfl
  | ok v =>
      rcases Path.follow_cases text root v with ⟨w, hw⟩ | ⟨found, hfound⟩
      · cases h.symm.trans hw
      · cases h.symm.trans hfound
        exact .inr ⟨found, rfl⟩

namespace Instance

variable {i : Instance} {name path : String} {e : Error}

/-- Only delegates fail to be looked up, and they say whose they are. -/
theorem accuses_of_lookup : ∀ {e : Error}, (lookup name i).1 = .error e → e.Accuses := by
  fun_induction lookup name i with
  | case6 name i _ _ _ _ _ d c _ answer hanswer =>
      intro e h
      have hfailed : answer = .error e := Except.map_eq_error h
      subst hfailed
      cases c with
      | resolving =>
          cases hanswer
          exact Error.accuses_selfReference d
      | unresolved | resolved v => cases hanswer
  | case7 name i _ _ _ _ _ d _ _ _ path begun first j hfirst answer c hsettle =>
      rename_i ih
      intro e h
      have hfailed : answer = .error e := Except.map_eq_error h
      subst hfailed
      unfold Delegate.settle at hsettle
      split at hsettle
      · cases hsettle
      · cases hsettle
      · rename_i other houtcome
        cases hsettle
        refine Error.accuses_intoRequirement ?_ _ _ _
        rcases Path.follow_error houtcome with hother | ⟨found, rfl⟩
        · left
          split at hfirst
          · cases hfirst
            cases hother
          · rw [hfirst] at ih
            exact ih hother
        · exact .inr rfl
  | _ =>
      intro e h
      cases h

theorem accuses_of_seek (h : (seek name i).1 = .error e) : e.Accuses := by
  revert h
  refine seek_cases (P := fun r => r.1 = .error e → e.Accuses) ?_ accuses_of_lookup
  intro h
  cases h

/-- A path that is looked up for nobody accuses a delegate on its way or is missed itself. -/
theorem get_error (h : (get path i).1 = .error e) :
    e.Accuses ∨ ∃ found, e = .pathNotFound ⟨path, i.describe, found⟩ := by
  rw [get_apply] at h
  exact (Path.follow_error h).imp_left accuses_of_seek

/-- A path that is looked up on behalf of a declaration accuses somebody. -/
theorem accuses_of_get {use : PathUse} {identity : String} {origin : Origin} {j : Instance}
    (h : ((get path).mapError (Error.intoRequirement use identity origin)) i = (.error e, j)) :
    e.Accuses := by
  rcases hget : get path i with ⟨other | v, k⟩
  · rw [Act.mapError_error hget] at h
    cases h
    refine Error.accuses_intoRequirement ?_ _ _ _
    rcases get_error (congrArg Prod.fst hget) with hother | ⟨found, rfl⟩
    · exact .inl hother
    · exact .inr rfl
  · rw [Act.mapError_ok hget] at h
    cases h

end Instance

end AppAssembly
