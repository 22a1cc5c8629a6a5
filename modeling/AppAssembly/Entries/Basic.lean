/-!
# Entries

Maps that remember the order of insertion, as lists of pairs. A key keeps the place of its first
insertion and carries the value of its last one; this is the order every declaration, keyword
argument and attribute of an application is shown in.
-/

namespace AppAssembly

/-- Pairs of keys and values in insertion order. -/
abbrev Entries (κ α : Type) := List (κ × α)

namespace Entries

variable {κ α β : Type}

/-- The keys, in order. -/
def keys (entries : Entries κ α) : List κ :=
  entries.map Prod.fst

/-- The values, in order. -/
def values (entries : Entries κ α) : List α :=
  entries.map Prod.snd

/-- Applies `f` to every value and keeps the keys. -/
def mapValues (f : α → β) (entries : Entries κ α) : Entries κ β :=
  entries.map fun entry => (entry.1, f entry.2)

theorem keys_map (f : κ → α → β) (entries : Entries κ α) :
    keys (entries.map fun (key, value) => (key, f key value)) = keys entries := by
  simp [keys]

theorem keys_mapValues (f : α → β) (entries : Entries κ α) :
    keys (mapValues f entries) = keys entries := by
  simp [keys, mapValues]

theorem keys_filterMap (keys : List κ) (find : κ → Option α) :
    Entries.keys (keys.filterMap fun k => (find k).map fun v => (k, v)) =
      keys.filter fun k => (find k).isSome := by
  unfold Entries.keys
  induction keys with
  | nil => rfl
  | cons k rest ih =>
      cases hfind : find k with
      | none => simp [hfind, ih]
      | some v => simp [hfind, ih]

variable [DecidableEq κ]

/-- The value under `key`, if there is one. -/
def get? : Entries κ α → κ → Option α
  | [], _ => none
  | (k, v) :: rest, key => if k = key then some v else get? rest key

def contains (entries : Entries κ α) (key : κ) : Bool :=
  (entries.get? key).isSome

/-- Replaces the value under `key` in place, or appends the pair. -/
def insert : Entries κ α → κ → α → Entries κ α
  | [], key, value => [(key, value)]
  | (k, v) :: rest, key, value =>
      if k = key then (k, value) :: rest else (k, v) :: insert rest key value

/-- Inserts every pair of `added` into `base`, in order. -/
def overlay (base added : Entries κ α) : Entries κ α :=
  added.foldl (fun entries entry => insert entries entry.1 entry.2) base

/-- The entries made by inserting the pairs one after the other. -/
def ofPairs (pairs : List (κ × α)) : Entries κ α :=
  overlay [] pairs

/-! ## Looking up after an insertion -/

@[simp] theorem get?_nil (key : κ) : get? ([] : Entries κ α) key = none := rfl

theorem get?_cons (k : κ) (v : α) (rest : Entries κ α) (key : κ) :
    get? ((k, v) :: rest) key = if k = key then some v else get? rest key := rfl

@[simp] theorem get?_insert_self (entries : Entries κ α) (key : κ) (value : α) :
    get? (insert entries key value) key = some value := by
  induction entries with
  | nil => simp [insert, get?]
  | cons entry rest ih =>
      obtain ⟨k, v⟩ := entry
      by_cases hk : k = key
      · simp [insert, get?, hk]
      · simp [insert, get?, hk, ih]

theorem get?_insert_of_ne (entries : Entries κ α) {key other : κ} (value : α) (h : key ≠ other) :
    get? (insert entries key value) other = get? entries other := by
  induction entries with
  | nil => simp [insert, get?, h]
  | cons entry rest ih =>
      obtain ⟨k, v⟩ := entry
      by_cases hk : k = key
      · subst hk
        simp [insert, get?, h]
      · simp only [insert, hk, if_false, get?_cons, ih]

theorem get?_insert (entries : Entries κ α) (key other : κ) (value : α) :
    get? (insert entries key value) other =
      if key = other then some value else get? entries other := by
  by_cases h : key = other
  · subst h
    simp
  · simp [h, get?_insert_of_ne entries value h]

/-- Entries laid over others answer first. -/
theorem get?_overlay (base added : Entries κ α) (key : κ) :
    get? (overlay base added) key = (get? (ofPairs added) key).or (get? base key) := by
  induction added generalizing base with
  | nil => rfl
  | cons entry rest ih =>
      obtain ⟨k, v⟩ := entry
      show get? (overlay (insert base k v) rest) key =
        (get? (overlay (insert [] k v) rest) key).or (get? base key)
      rw [ih, ih (insert [] k v), Option.or_assoc, get?_insert, get?_insert, get?_nil]
      by_cases hk : k = key
      · simp [hk]
      · simp [hk]

/-- Entries laid over others say nothing about a key they lack. -/
theorem get?_overlay_of_not_mem {added : Entries κ α} {key : κ} (h : key ∉ keys added)
    (base : Entries κ α) : get? (overlay base added) key = get? base key := by
  induction added generalizing base with
  | nil => rfl
  | cons entry rest ih =>
      have hne : entry.1 ≠ key := fun hkey => h (hkey ▸ List.mem_cons_self)
      show get? (overlay (insert base entry.1 entry.2) rest) key = get? base key
      rw [ih fun hrest => h (List.mem_cons_of_mem entry.1 hrest),
        get?_insert_of_ne base entry.2 hne]

theorem exists_get?_overlay {added : Entries κ α} {key : κ} (h : key ∈ keys added)
    (base : Entries κ α) :
    ∃ value, (key, value) ∈ added ∧ get? (overlay base added) key = some value := by
  induction added generalizing base with
  | nil => cases h
  | cons entry rest ih =>
      show ∃ value, _ ∧ get? (overlay (insert base entry.1 entry.2) rest) key = some value
      by_cases hrest : key ∈ keys rest
      · obtain ⟨value, hvalue, hget⟩ := ih hrest (insert base entry.1 entry.2)
        exact ⟨value, List.mem_cons_of_mem entry hvalue, hget⟩
      · have hkey : key = entry.1 := (List.mem_cons.mp h).resolve_right hrest
        subst hkey
        refine ⟨entry.2, List.mem_cons_self, ?_⟩
        rw [get?_overlay_of_not_mem hrest, get?_insert_self]

/-- Keys laid over others, each with what goes with it. -/
theorem get?_overlay_map (base : Entries κ α) (added : List κ) (f : κ → α) (key : κ) :
    get? (overlay base (added.map fun k => (k, f k))) key =
      if key ∈ added then some (f key) else get? base key := by
  have hkeys : keys (added.map fun k => (k, f k)) = added := by
    simp [keys, Function.comp_def]
  by_cases hkey : key ∈ added
  · obtain ⟨value, hvalue, hget⟩ := exists_get?_overlay (hkeys.symm ▸ hkey) base
    obtain ⟨k, _, heq⟩ := List.mem_map.mp hvalue
    cases heq
    rw [hget, if_pos hkey]
  · rw [get?_overlay_of_not_mem (by rwa [hkeys]), if_neg hkey]

theorem get?_mapValues (f : α → β) (entries : Entries κ α) (key : κ) :
    get? (mapValues f entries) key = (get? entries key).map f := by
  induction entries with
  | nil => rfl
  | cons entry rest ih =>
      obtain ⟨k, v⟩ := entry
      by_cases hk : k = key
      · simp [mapValues, get?, hk]
      · simp only [mapValues] at ih
        simp [mapValues, get?, hk, ih]

/-- Entries made of keys and what is found for them. -/
theorem get?_filterMap (keys : List κ) (find : κ → Option α) (key : κ) :
    get? (keys.filterMap fun k => (find k).map fun v => (k, v)) key =
      if key ∈ keys then find key else none := by
  induction keys with
  | nil => rfl
  | cons k rest ih =>
      rw [List.filterMap_cons]
      by_cases hk : k = key
      · subst hk
        cases hfind : find k with
        | none => simp [ih, hfind]
        | some v => simp [get?_cons]
      · cases hfind : find k with
        | none => simp [ih, Ne.symm hk]
        | some v => simp [get?_cons, ih, hk, Ne.symm hk]

/-! ## Keys -/

theorem get?_isSome_iff (entries : Entries κ α) (key : κ) :
    (get? entries key).isSome ↔ key ∈ keys entries := by
  induction entries with
  | nil => simp [keys]
  | cons entry rest ih =>
      obtain ⟨k, v⟩ := entry
      simp only [keys] at ih
      by_cases hk : k = key
      · simp [get?, keys, hk]
      · have hk' : ¬ key = k := fun h => hk h.symm
        simp only [get?, hk, if_false, ih, keys, List.map_cons, List.mem_cons, hk', false_or]

theorem get?_eq_none_iff (entries : Entries κ α) (key : κ) :
    get? entries key = none ↔ key ∉ keys entries := by
  rw [← get?_isSome_iff]
  cases get? entries key <;> simp

theorem mem_of_get?_eq_some {entries : Entries κ α} {key : κ} {value : α}
    (h : get? entries key = some value) : (key, value) ∈ entries := by
  induction entries with
  | nil => cases h
  | cons entry rest ih =>
      obtain ⟨k, v⟩ := entry
      by_cases hk : k = key
      · simp only [get?, hk, if_true, Option.some.injEq] at h
        simp [hk, h]
      · simp only [get?, hk, if_false] at h
        exact List.mem_cons_of_mem _ (ih h)

theorem get?_of_mem {entries : Entries κ α} (hnodup : (keys entries).Nodup) {key : κ} {value : α}
    (h : (key, value) ∈ entries) : get? entries key = some value := by
  induction entries with
  | nil => cases h
  | cons entry rest ih =>
      obtain ⟨k, v⟩ := entry
      simp only [keys, List.map_cons, List.nodup_cons] at hnodup
      rcases List.mem_cons.mp h with heq | h
      · cases heq
        simp [get?_cons]
      · have hk : k ≠ key := fun hk => hnodup.1 (hk ▸ List.mem_map_of_mem h)
        simp [get?_cons, hk, ih hnodup.2 h]

/-- A list of pairs with distinct keys is a map already. -/
theorem get?_ofPairs {entries : Entries κ α} (hnodup : (keys entries).Nodup) (key : κ) :
    get? (ofPairs entries) key = get? entries key := by
  unfold ofPairs
  by_cases hkey : key ∈ keys entries
  · obtain ⟨value, hvalue, hget⟩ := exists_get?_overlay hkey []
    rw [hget, get?_of_mem hnodup hvalue]
  · rw [get?_overlay_of_not_mem hkey, (get?_eq_none_iff entries key).mpr hkey]
    rfl

theorem get?_filter {entries : Entries κ α} (hnodup : (keys entries).Nodup) (p : α → Bool)
    (key : κ) :
    get? (entries.filter fun entry => p entry.2) key = (get? entries key).filter p := by
  induction entries with
  | nil => rfl
  | cons entry rest ih =>
      obtain ⟨k, v⟩ := entry
      obtain ⟨hfresh, hrest⟩ := List.nodup_cons.mp hnodup
      rw [get?_cons]
      by_cases hkey : k = key
      · subst hkey
        have hnone : get? rest k = none := (get?_eq_none_iff rest k).mpr hfresh
        have hrest := ih hrest
        rw [hnone] at hrest
        cases hp : p v <;> simp [hp, hrest, get?_cons, Option.filter]
      · rw [if_neg hkey, ← ih hrest]
        cases hp : p v <;> simp [hp, hkey, get?_cons]

/-- A known key stays where it is, a new one goes to the end. -/
theorem keys_insert (entries : Entries κ α) (key : κ) (value : α) :
    keys (insert entries key value) =
      if key ∈ keys entries then keys entries else keys entries ++ [key] := by
  induction entries with
  | nil => simp [insert, keys]
  | cons entry rest ih =>
      obtain ⟨k, v⟩ := entry
      by_cases hk : k = key
      · simp [insert, keys, hk]
      · simp only [keys] at ih
        by_cases hm : key ∈ rest.map Prod.fst
        · simp [insert, keys, hk, ih, hm]
        · simp [insert, keys, hk, ih, hm, Ne.symm hk]

theorem mem_insert {entries : Entries κ α} {entry : κ × α} {key : κ} {value : α}
    (h : entry ∈ insert entries key value) : entry = (key, value) ∨ entry ∈ entries := by
  induction entries with
  | nil => exact .inl (List.mem_singleton.mp h)
  | cons first rest ih =>
      obtain ⟨k, v⟩ := first
      simp only [insert] at h
      split at h
      · rename_i hk
        rcases List.mem_cons.mp h with rfl | h
        · exact .inl (by rw [hk])
        · exact .inr (List.mem_cons_of_mem _ h)
      · rcases List.mem_cons.mp h with rfl | h
        · exact .inr List.mem_cons_self
        · exact (ih h).imp_right (List.mem_cons_of_mem _)

theorem nodup_keys_insert {entries : Entries κ α} (h : (keys entries).Nodup) (key : κ) (value : α) :
    (keys (insert entries key value)).Nodup := by
  rw [keys_insert]
  split
  · exact h
  · rename_i hm
    rw [List.nodup_append]
    refine ⟨h, by simp, ?_⟩
    intro a ha b hb hab
    simp only [List.mem_singleton] at hb
    exact hm (hb ▸ hab ▸ ha)

theorem nodup_keys_overlay {base : Entries κ α} (h : (keys base).Nodup) (added : Entries κ α) :
    (keys (overlay base added)).Nodup := by
  induction added generalizing base with
  | nil => exact h
  | cons entry rest ih => exact ih (nodup_keys_insert h entry.1 entry.2)

/-- The keys in their order and the values under them are all there is to a map. -/
theorem ext_get? {entries others : Entries κ α} (hkeys : keys entries = keys others)
    (hnodup : (keys entries).Nodup)
    (hget : ∀ key ∈ keys entries, get? entries key = get? others key) : entries = others := by
  induction entries generalizing others with
  | nil => exact (List.map_eq_nil_iff.mp hkeys.symm).symm
  | cons entry rest ih =>
      obtain ⟨k, v⟩ := entry
      cases others with
      | nil => cases hkeys
      | cons other rest' =>
          obtain ⟨k', v'⟩ := other
          obtain ⟨hk, hrest⟩ := List.cons.inj hkeys
          change k = k' at hk
          subst hk
          obtain ⟨hfresh, hnodup⟩ := List.nodup_cons.mp hnodup
          have hv : v = v' := by simpa [get?_cons] using hget k List.mem_cons_self
          have hrest : rest = rest' := by
            refine ih hrest hnodup fun key hkey => ?_
            have hne : k ≠ key := fun h => hfresh (h ▸ hkey)
            simpa [get?_cons, hne] using hget key (List.mem_cons_of_mem _ hkey)
          rw [hv, hrest]

/-- Values are found under their keys wherever the pairs stand. -/
theorem get?_perm {entries others : Entries κ α} (hperm : entries.Perm others)
    (hnodup : (keys entries).Nodup) (key : κ) : get? entries key = get? others key := by
  have hnodup' : (keys others).Nodup := (hperm.map Prod.fst).nodup hnodup
  cases hother : get? others key with
  | some value => exact get?_of_mem hnodup (hperm.mem_iff.mpr (mem_of_get?_eq_some hother))
  | none =>
      rw [get?_eq_none_iff] at hother ⊢
      exact fun hkey => hother ((hperm.map Prod.fst).mem_iff.mp hkey)

end Entries

end AppAssembly
