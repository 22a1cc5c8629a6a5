import AppAssembly.Entries.Basic

/-!
# Entries in order of their keys

Pairs under unique keys that are kept sorted by key.
-/

namespace AppAssembly.Entries

variable {α : Type}

/-- Puts a pair into its place, replacing one under the same key. -/
def insertSorted (key : String) (value : α) : Entries String α → Entries String α
  | [] => [(key, value)]
  | (k, v) :: rest =>
      if k = key then (key, value) :: rest
      else if key < k then (key, value) :: (k, v) :: rest
      else (k, v) :: insertSorted key value rest

/-- The pairs in order of their keys; of several under one key the last one counts. -/
def sorted (pairs : List (String × α)) : Entries String α :=
  pairs.foldl (fun entries entry => insertSorted entry.1 entry.2 entries) []

theorem get?_insertSorted_self (key : String) (value : α) (entries : Entries String α) :
    get? (insertSorted key value entries) key = some value := by
  induction entries with
  | nil => simp [insertSorted, get?]
  | cons entry rest ih =>
      obtain ⟨k, v⟩ := entry
      simp only [insertSorted]
      split
      · simp [get?]
      · rename_i hk
        split
        · simp [get?]
        · simp [get?, hk, ih]

theorem get?_insertSorted_of_ne {key other : String} (value : α) (entries : Entries String α)
    (h : key ≠ other) : get? (insertSorted key value entries) other = get? entries other := by
  induction entries with
  | nil => simp [insertSorted, get?, h]
  | cons entry rest ih =>
      obtain ⟨k, v⟩ := entry
      simp only [insertSorted]
      split
      · rename_i hk
        subst hk
        simp [get?, h]
      · split
        · simp [get?, h]
        · simp only [get?, ih]

theorem mem_keys_insertSorted {key other : String} {value : α} {entries : Entries String α} :
    other ∈ keys (insertSorted key value entries) ↔ other = key ∨ other ∈ keys entries := by
  induction entries with
  | nil => simp [insertSorted, keys]
  | cons entry rest ih =>
      obtain ⟨k, v⟩ := entry
      simp only [insertSorted]
      split
      · rename_i hk
        simp [keys, hk]
      · split
        · simp [keys]
        · simp only [keys, List.map_cons, List.mem_cons] at ih ⊢
          rw [ih, or_left_comm]

/-- The keys stay in order. -/
theorem pairwise_insertSorted {key : String} {value : α} {entries : Entries String α}
    (h : (keys entries).Pairwise (· < ·)) :
    (keys (insertSorted key value entries)).Pairwise (· < ·) := by
  induction entries with
  | nil => simp [insertSorted, keys]
  | cons entry rest ih =>
      obtain ⟨k, v⟩ := entry
      obtain ⟨hfirst, hrest⟩ := List.pairwise_cons.mp h
      simp only [insertSorted]
      split
      · rename_i hk
        subst hk
        exact List.pairwise_cons.mpr ⟨hfirst, hrest⟩
      · rename_i hk
        split
        · rename_i hbefore
          refine List.pairwise_cons.mpr ⟨fun other hother => ?_, h⟩
          rcases List.mem_cons.mp hother with rfl | hother
          · exact hbefore
          · exact String.lt_trans hbefore (hfirst other hother)
        · rename_i hbehind
          refine List.pairwise_cons.mpr ⟨fun other hother => ?_, ih hrest⟩
          rcases mem_keys_insertSorted.mp hother with rfl | hother
          · exact Std.lt_of_le_of_ne hbehind hk
          · exact hfirst other hother

end AppAssembly.Entries
