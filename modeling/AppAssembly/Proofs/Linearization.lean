import AppAssembly.Layer.Linearization

/-!
# Merging rows into one order

An order agrees with some rows if it names no key twice and every row stands in it as a
subsequence. What the merge returns agrees with its rows (`merge_agrees`), and the merge gives up
only if no order does (`merge_isSome_iff`): the row head that comes first in an agreeing order can
always be taken next.
-/

namespace AppAssembly.Linearization

variable {α κ : Type} [DecidableEq κ]

/-- An order of keys that names none twice and keeps the order inside every row. -/
structure Agrees (key : α → κ) (rows : List (List α)) (order : List κ) : Prop where
  nodup : order.Nodup
  keeps : ∀ row ∈ rows, (row.map key).Sublist order

/-! ## One step of the merge -/

theorem admissible_iff {key : α → κ} {rows : List (List α)} {a : α} :
    admissible key rows a = true ↔ ∀ row ∈ rows, key a ∉ row.tail.map key := by
  simp only [admissible, List.all_eq_true, List.mem_map, not_exists, not_and,
    decide_eq_true_eq, ne_eq]

theorem next?_eq_some {key : α → κ} {rows : List (List α)} {a : α}
    (h : next? key rows = some a) :
    (∃ row ∈ rows, row.head? = some a) ∧ ∀ row ∈ rows, key a ∉ row.tail.map key :=
  ⟨List.mem_filterMap.mp (List.mem_of_find?_eq_some h), admissible_iff.mp (List.find?_some h)⟩

/-- A head that may come next is behind no head. -/
theorem next?_isSome {key : α → κ} {rows : List (List α)} {a : α}
    (hhead : ∃ row ∈ rows, row.head? = some a) (ha : ∀ row ∈ rows, key a ∉ row.tail.map key) :
    (next? key rows).isSome := by
  rw [next?, List.find?_isSome]
  exact ⟨a, List.mem_filterMap.mpr hhead, admissible_iff.mpr ha⟩

theorem dropHead_sublist (key : α → κ) (a : α) (row : List α) :
    (dropHead key a row).Sublist row := by
  cases row with
  | nil => exact .slnil
  | cons b rest =>
      rw [dropHead]
      split
      · exact List.sublist_cons_self b rest
      · exact .refl _

/-- What is left of a row has the element no more, if it was not behind the head. -/
theorem notMem_dropHead {key : α → κ} {a : α} {row : List α} (h : key a ∉ row.tail.map key) :
    key a ∉ (dropHead key a row).map key := by
  cases row with
  | nil => exact h
  | cons b rest =>
      rw [dropHead]
      split
      · exact h
      · rename_i hb
        rw [List.map_cons, List.mem_cons, not_or]
        exact ⟨Ne.symm hb, h⟩

/-- What an order needs to hold a row is that the rest of it holds what is left of the row. -/
theorem sublist_cons_of_dropHead {key : α → κ} {a : α} {row : List α} {order : List κ}
    (h : ((dropHead key a row).map key).Sublist order) :
    (row.map key).Sublist (key a :: order) := by
  cases row with
  | nil => exact List.nil_sublist _
  | cons b rest =>
      rw [dropHead] at h
      split at h
      · rename_i hb
        rw [List.map_cons, hb]
        exact h.cons_cons _
      · exact h.cons _

/-! ## What the merge returns -/

theorem mem_of_mem_merge {key : α → κ} {rows : List (List α)} {order : List α}
    (h : merge key rows = some order) {a : α} (ha : a ∈ order) : ∃ row ∈ rows, a ∈ row := by
  fun_induction merge key rows generalizing order with
  | case1 rows _ =>
      cases h
      cases ha
  | case2 rows _ _ => cases h
  | case3 rows _ b hb ih =>
      obtain ⟨rest, hrest, rfl⟩ := Option.map_eq_some_iff.mp h
      rcases List.mem_cons.mp ha with rfl | ha
      · obtain ⟨⟨row, hrow, hhead⟩, _⟩ := next?_eq_some hb
        exact ⟨row, hrow, List.mem_of_head? hhead⟩
      · obtain ⟨row, hrow, ha⟩ := ih hrest ha
        obtain ⟨source, hsource, rfl⟩ := List.mem_map.mp hrow
        exact ⟨source, hsource, (dropHead_sublist key b source).mem ha⟩

/-- The merge keeps the order of every row and takes no key twice. -/
theorem merge_agrees {key : α → κ} {rows : List (List α)} {order : List α}
    (h : merge key rows = some order) : Agrees key rows (order.map key) := by
  fun_induction merge key rows generalizing order with
  | case1 rows hempty =>
      cases h
      refine ⟨List.nodup_nil, fun row hrow => ?_⟩
      obtain rfl : row = [] := List.isEmpty_iff.mp (List.all_eq_true.mp hempty row hrow)
      exact .slnil
  | case2 rows _ _ => cases h
  | case3 rows _ a ha ih =>
      obtain ⟨rest, hrest, rfl⟩ := Option.map_eq_some_iff.mp h
      obtain ⟨_, hbehind⟩ := next?_eq_some ha
      have hagrees := ih hrest
      refine ⟨?_, fun row hrow => ?_⟩
      · rw [List.map_cons, List.nodup_cons]
        refine ⟨fun hmem => ?_, hagrees.nodup⟩
        -- an element of the rest stands in a shortened row, where the taken key is gone
        obtain ⟨b, hb, hkey⟩ := List.mem_map.mp hmem
        obtain ⟨row', hrow', hb⟩ := mem_of_mem_merge hrest hb
        obtain ⟨row, hrow, rfl⟩ := List.mem_map.mp hrow'
        exact notMem_dropHead (hbehind row hrow) (hkey ▸ List.mem_map_of_mem hb)
      · exact sublist_cons_of_dropHead (hagrees.keeps _ (List.mem_map_of_mem hrow))

/-! ## When there is an order -/

theorem Agrees.advance {key : α → κ} {rows : List (List α)} {order : List κ}
    (h : Agrees key rows order) (a : α) : Agrees key (advance key a rows) order where
  nodup := h.nodup
  keeps row hrow := by
    obtain ⟨source, hsource, rfl⟩ := List.mem_map.mp hrow
    exact ((dropHead_sublist key a source).map key).trans (h.keeps source hsource)

/-- In an order without repetitions, whatever stands before the first of two keys stands before
the second. -/
theorem mem_before_of_sublist {ι : Type} {order before after : List ι} {k l : ι}
    (hnodup : order.Nodup) (hsplit : order = before ++ l :: after) (h : [k, l].Sublist order) :
    k ∈ before := by
  subst hsplit
  induction before with
  | nil =>
      rw [List.nil_append] at h hnodup
      have hl : l ∉ after := (List.nodup_cons.mp hnodup).1
      cases h with
      | cons _ h => exact absurd (h.mem (by simp)) hl
      | cons_cons _ h => exact absurd (h.mem (by simp)) hl
  | cons b before ih =>
      rw [List.cons_append] at h hnodup
      cases h with
      | cons _ h => exact List.mem_cons_of_mem b (ih (List.nodup_cons.mp hnodup).2 h)
      | cons_cons _ h => exact List.mem_cons_self

/-- Of two elements of such an order, only one stands before the other. -/
theorem not_sublist_swap {ι : Type} {order : List ι} {k l : ι} (hnodup : order.Nodup)
    (h : [k, l].Sublist order) : ¬ [l, k].Sublist order := by
  intro h'
  induction order with
  | nil => cases h
  | cons a order ih =>
      obtain ⟨ha, hnodup⟩ := List.nodup_cons.mp hnodup
      cases h with
      | cons _ h =>
          cases h' with
          | cons _ h' => exact ih hnodup h h'
          | cons_cons _ _ => exact ha (h.mem (by simp))
      | cons_cons _ h =>
          cases h' with
          | cons _ h' => exact ha (h'.mem (by simp))
          | cons_cons _ _ => exact ha (h.mem List.mem_cons_self)

/-- As long as a row is left, the head that an agreeing order names first may come next. -/
theorem Agrees.next?_isSome {key : α → κ} {rows : List (List α)} {order : List κ}
    (h : Agrees key rows order) {row : List α} (hrow : row ∈ rows) (hne : row ≠ []) :
    (next? key rows).isSome := by
  let heads := (rows.filterMap List.head?).map key
  have hhead : ∃ k ∈ order, k ∈ heads := by
    obtain ⟨a, rest, rfl⟩ := List.exists_cons_of_ne_nil hne
    refine ⟨key a, (h.keeps _ hrow).mem (by simp), List.mem_map_of_mem ?_⟩
    exact List.mem_filterMap.mpr ⟨a :: rest, hrow, rfl⟩
  obtain ⟨k, hk⟩ : ∃ k, order.find? (· ∈ heads) = some k := by
    rw [← Option.isSome_iff_exists, List.find?_isSome]
    simpa using hhead
  obtain ⟨hkhead, before, after, hsplit, hfirst⟩ := List.find?_eq_some_iff_append.mp hk
  obtain ⟨a, ha, rfl⟩ := List.mem_map.mp (of_decide_eq_true hkhead)
  refine Linearization.next?_isSome (List.mem_filterMap.mp ha) fun row hrow hbehind => ?_
  -- behind the head of a row, the key would come after that head in the order as well
  cases row with
  | nil => simp at hbehind
  | cons b rest =>
      have hpair : [key b, key a].Sublist order := by
        refine List.Sublist.trans ?_ (h.keeps _ hrow)
        rw [List.map_cons]
        exact (List.singleton_sublist.mpr hbehind).cons_cons _
      have hbefore := hfirst (key b) (mem_before_of_sublist h.nodup hsplit hpair)
      have hb : key b ∈ heads :=
        List.mem_map_of_mem (List.mem_filterMap.mpr ⟨b :: rest, hrow, rfl⟩)
      simp [hb] at hbefore

theorem Agrees.merge_isSome {key : α → κ} {rows : List (List α)} {order : List κ}
    (h : Agrees key rows order) : (merge key rows).isSome := by
  fun_induction merge key rows with
  | case1 rows _ => rfl
  | case2 rows hleft hnone =>
      obtain ⟨row, hrow, hne⟩ : ∃ row ∈ rows, row ≠ [] := by simpa using hleft
      have := h.next?_isSome hrow hne
      rw [hnone] at this
      cases this
  | case3 rows _ a _ ih =>
      rw [Option.isSome_map]
      exact ih (h.advance a)

/-- The merge finds an order exactly if there is one. -/
theorem merge_isSome_iff {key : α → κ} {rows : List (List α)} :
    (merge key rows).isSome ↔ ∃ order, Agrees key rows order := by
  constructor
  · intro h
    obtain ⟨order, horder⟩ := Option.isSome_iff_exists.mp h
    exact ⟨_, merge_agrees horder⟩
  · rintro ⟨order, h⟩
    exact h.merge_isSome

end AppAssembly.Linearization
