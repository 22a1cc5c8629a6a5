import AppAssembly.Entries.Basic

/-!
# The first of each key

Walking along a list, the first element with a key decides and later ones with the same key are
ignored. This is how an application type is read: its layers stand from the most derived one on,
and whoever mentions a name first answers for it.
-/

namespace AppAssembly

variable {α κ : Type} [DecidableEq κ]

/-- The first element of every key, in order. -/
def firstBy (key : α → κ) : List α → List α
  | [] => []
  | a :: rest => a :: (firstBy key rest).filter fun b => key b ≠ key a

theorem mem_of_mem_firstBy {key : α → κ} {l : List α} {a : α} (h : a ∈ firstBy key l) : a ∈ l := by
  induction l with
  | nil => exact h
  | cons b rest ih =>
      rcases List.mem_cons.mp h with rfl | h
      · exact List.mem_cons_self
      · exact List.mem_cons_of_mem _ (ih (List.mem_filter.mp h).1)

theorem nodup_map_firstBy (key : α → κ) (l : List α) : ((firstBy key l).map key).Nodup := by
  induction l with
  | nil => simp [firstBy]
  | cons a rest ih =>
      simp only [firstBy, List.map_cons, List.nodup_cons]
      constructor
      · intro h
        obtain ⟨b, hb, hk⟩ := List.mem_map.mp h
        simpa [hk] using (List.mem_filter.mp hb).2
      · exact ih.sublist (List.filter_sublist.map key)

/-- An element is kept exactly if it is the first one with its key. -/
theorem mem_firstBy_iff (key : α → κ) (l : List α) (a : α) :
    a ∈ firstBy key l ↔ l.find? (fun b => key b = key a) = some a := by
  induction l with
  | nil => simp [firstBy]
  | cons b rest ih =>
      by_cases hb : key b = key a
      · simp [firstBy, hb, eq_comm]
      · have hne : a ≠ b := fun hab => hb (congrArg key hab.symm)
        simp [firstBy, hb, hne, Ne.symm hb, ih]

/-- Nothing is lost but repetitions. -/
theorem mem_firstBy_id {l : List κ} {a : κ} : a ∈ firstBy id l ↔ a ∈ l := by
  refine ⟨mem_of_mem_firstBy, fun h => ?_⟩
  rw [mem_firstBy_iff]
  induction l with
  | nil => cases h
  | cons b rest ih =>
      by_cases hb : b = a
      · simp [hb]
      · have hrest : a ∈ rest := (List.mem_cons.mp h).resolve_left (Ne.symm hb)
        simpa [hb] using ih hrest

/-- Without repetitions nothing is ignored. -/
theorem firstBy_id_of_nodup {l : List κ} (h : l.Nodup) :
    firstBy id l = l := by
  induction l with
  | nil => rfl
  | cons a rest ih =>
      obtain ⟨hfresh, hrest⟩ := List.nodup_cons.mp h
      rw [firstBy, ih hrest, List.filter_eq_self.mpr]
      intro b hb
      refine decide_eq_true fun hba => hfresh ?_
      rwa [← show b = a from hba]

/-- What stands before decides about what stands behind. -/
theorem firstBy_append (key : α → κ) (l m : List α) :
    firstBy key (l ++ m) =
      firstBy key l ++ (firstBy key m).filter fun b => key b ∉ l.map key := by
  induction l with
  | nil => exact (List.filter_eq_self.mpr (by simp)).symm
  | cons a l ih =>
      rw [List.cons_append, firstBy, ih, firstBy, List.filter_append, List.filter_filter,
        List.cons_append]
      simp only [List.map_cons, List.mem_cons, not_or, Bool.decide_and]

/-- A key that occurs before is answered there. -/
theorem mem_left_of_mem_firstBy_append {key : α → κ} {l m : List α} {a : α}
    (h : a ∈ firstBy key (l ++ m)) (hk : key a ∈ l.map key) : a ∈ l := by
  rw [firstBy_append, List.mem_append] at h
  rcases h with h | h
  · exact mem_of_mem_firstBy h
  · have hnew := (List.mem_filter.mp h).2
    exact absurd hk (of_decide_eq_true hnew)

theorem firstBy_map {β : Type} (key : β → κ) (f : α → β) (l : List α) :
    firstBy key (l.map f) = (firstBy (fun a => key (f a)) l).map f := by
  induction l with
  | nil => rfl
  | cons a l ih =>
      rw [List.map_cons, firstBy, ih, firstBy, List.map_cons, List.filter_map]
      rfl

/-! ## Keys of entries laid over others -/

/-- The keys of entries laid over others are all keys of both, each once. -/
theorem Entries.keys_overlay {base : Entries κ α}
    (h : (keys base).Nodup) (added : Entries κ α) :
    keys (overlay base added) = firstBy id (keys base ++ keys added) := by
  induction added generalizing base with
  | nil =>
      rw [show keys ([] : Entries κ α) = [] from rfl, List.append_nil, firstBy_id_of_nodup h]
      rfl
  | cons entry rest ih =>
      obtain ⟨key, value⟩ := entry
      show keys (overlay (insert base key value) rest) = firstBy id (keys base ++ key :: keys rest)
      rw [ih (nodup_keys_insert h key value), keys_insert]
      by_cases hkey : key ∈ keys base
      · -- the key has its place already
        rw [if_pos hkey, firstBy_append, firstBy_append, List.map_id, firstBy,
          List.filter_cons_of_neg (by simpa using hkey), List.filter_filter]
        congr 1
        refine List.filter_congr fun other _ => ?_
        by_cases hother : other ∈ keys base
        · simp [hother]
        · have hne : other ≠ key := fun hsame => hother (hsame ▸ hkey)
          simp [hother, hne]
      · rw [if_neg hkey, List.append_assoc, List.singleton_append]

theorem Entries.keys_overlay_of_nodup {base added : Entries κ α}
    (h : (keys base ++ keys added).Nodup) :
    keys (overlay base added) = keys base ++ keys added := by
  rw [keys_overlay (List.nodup_append.mp h).1, firstBy_id_of_nodup h]

/-- Laying entries with distinct keys over nothing leaves them as they are. -/
theorem Entries.ofPairs_eq_self {entries : Entries κ α} (h : (keys entries).Nodup) :
    ofPairs entries = entries := by
  have hkeys : keys (ofPairs entries) = keys entries := by
    unfold ofPairs
    rw [keys_overlay_of_nodup (by simpa [keys] using h)]
    rfl
  exact ext_get? hkeys (hkeys ▸ h) fun key _ => get?_ofPairs h key

end AppAssembly
