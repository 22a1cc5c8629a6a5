import AppAssembly.Proofs.NameRecords
import Mathlib.Data.List.Induction
import Mathlib.Data.List.Nodup

/-!
# Who added a name last

Names are recorded in a ledger as added, removed or replaced, and the ledger is normalised, in any
order. Whoever added a name last answers for it, unless the ledger was normalised after that while
the name was recorded as removed or replaced (`LastAdded`). What one change does to this and to the
form of the records holds for any changes then (`Ledger.added_last`).
-/

namespace AppAssembly

namespace NameRecord

/-- Every origin stands there once and has names. -/
structure Tidy (r : NameRecord) : Prop where
  origins : (Entries.keys r).Nodup
  filled : ∀ origin listed, (origin, listed) ∈ r → listed ≠ []

variable {r : NameRecord} {name : String} {names : List String}

theorem tidy_nil : Tidy [] where
  origins := List.nodup_nil
  filled origin listed h := by cases h

theorem Tidy.add (h : r.Tidy) (origin : Origin) (names : List String) :
    (r.add origin names).Tidy := by
  unfold NameRecord.add
  split
  · exact h
  · rename_i hnames
    refine ⟨Entries.nodup_keys_insert h.origins _ _, fun own listed hentry => ?_⟩
    rcases Entries.mem_insert hentry with heq | hold
    · cases heq
      obtain ⟨first, hfirst⟩ := List.exists_mem_of_ne_nil names (by simpa using hnames)
      exact List.ne_nil_of_mem (mem_addNew.mpr (.inr hfirst))
    · exact h.filled own listed hold

theorem Tidy.drop (h : r.Tidy) (names : List String) : (r.drop names).Tidy := by
  constructor
  · have hkeys : (Entries.keys (r.drop names)).Sublist (Entries.keys r) := by
      rw [← Entries.keys_mapValues (fun listed => listed.filter (· ∉ names)) r]
      exact List.filter_sublist.map Prod.fst
    exact h.origins.sublist hkeys
  · intro origin listed hentry
    simpa using (List.mem_filter.mp hentry).2

/-- Where none of the names is listed, dropping them changes nothing. -/
theorem Tidy.drop_eq_self (h : r.Tidy) (hnames : ∀ name ∈ names, name ∉ r.names) :
    r.drop names = r := by
  have hkept : ∀ entry ∈ r, (entry.1, entry.2.filter (· ∉ names)) = entry := by
    intro entry hentry
    have hlisted : entry.2.filter (· ∉ names) = entry.2 := by
      refine List.filter_eq_self.mpr fun name hname => decide_eq_true fun hdropped => ?_
      exact hnames name hdropped ((mem_names_iff r).mpr ⟨entry.1, entry.2, hentry, hname⟩)
    rw [hlisted]
  unfold NameRecord.drop Entries.mapValues
  rw [List.map_congr_left hkept, List.map_id']
  refine List.filter_eq_self.mpr fun entry hentry => ?_
  simpa using h.filled entry.1 entry.2 hentry

theorem mem_names_cons (origin : Origin) (listed : List String) (r : NameRecord) :
    name ∈ NameRecord.names ((origin, listed) :: r) ↔ name ∈ listed ∨ name ∈ r.names := by
  simp [NameRecord.names, Entries.values, mem_addNew]

theorem mem_names_drop : name ∈ (r.drop names).names ↔ name ∈ r.names ∧ name ∉ names := by
  rw [mem_names_iff_isSome, mem_names_iff_isSome, recordedBy?_drop]
  by_cases h : name ∈ names
  · simp [h]
  · simp [h]

theorem mem_names_add {origin : Origin} :
    name ∈ (r.add origin names).names ↔ name ∈ r.names ∨ name ∈ names := by
  unfold NameRecord.add
  split
  · rename_i hempty
    simp [List.isEmpty_iff.mp hempty]
  · induction r with
    | nil => simp [Entries.insert, mem_addNew, NameRecord.names, Entries.values]
    | cons entry r ih =>
        obtain ⟨own, listed⟩ := entry
        by_cases hown : own = origin
        · simp only [Entries.insert, Entries.get?_cons, hown, if_true, Option.getD_some,
            mem_names_cons, mem_addNew, or_right_comm]
        · simp only [Entries.insert, Entries.get?_cons, hown, if_false, mem_names_cons, ih,
            or_assoc]

end NameRecord

/-! ## Changes -/

/-- A change to the names of a ledger. -/
inductive NameChange where
  | add (origin : Origin) (names : List String)
  | remove (origin : Origin) (names : List String)
  | replace (origin : Origin) (names : List String)
  | normalise
deriving DecidableEq, Repr

/-- The names that a change removes or replaces. -/
def NameChange.shadowed : NameChange → List String
  | remove _ names | replace _ names => names
  | add _ _ | normalise => []

namespace Ledger

variable {changes : List NameChange} {name : String} {origin : Origin}

def change (l : Ledger) : NameChange → Ledger
  | .add origin names => l.recordAdded origin names
  | .remove origin names => l.recordRemoved origin names
  | .replace origin names => l.recordReplaced origin names
  | .normalise => l.normalise

/-- A new ledger after some changes. -/
def after (changes : List NameChange) : Ledger :=
  changes.foldl change {}

theorem after_snoc (changes : List NameChange) (c : NameChange) :
    after (changes ++ [c]) = (after changes).change c := by
  unfold after
  rw [List.foldl_append]
  rfl

/-- A name that is recorded as removed or replaced. -/
def Shadows (l : Ledger) (name : String) : Prop :=
  name ∈ l.removed.names ∨ name ∈ l.replaced.names

theorem shadows_iff (l : Ledger) (name : String) :
    l.Shadows name ↔ (l.removedBy? name).isSome ∨ (l.replacedBy? name).isSome :=
  or_congr (NameRecord.mem_names_iff_isSome _) (NameRecord.mem_names_iff_isSome _)

/-- The last one to add the name; since then the ledger was not normalised while the name was
recorded as removed or replaced. -/
def LastAdded (changes : List NameChange) (name : String) (origin : Origin) : Prop :=
  ∃ before names later, changes = before ++ .add origin names :: later ∧ name ∈ names ∧
    (∀ own others, .add own others ∈ later → name ∉ others) ∧
    ∀ mid rest, later = mid ++ .normalise :: rest →
      ¬ (after (before ++ .add origin names :: mid)).Shadows name

/-! ## One change more -/

/-- Who added a name last after one change more. -/
theorem lastAdded_snoc (changes : List NameChange) (c : NameChange) :
    LastAdded (changes ++ [c]) name origin ↔
      (∃ names, c = .add origin names ∧ name ∈ names) ∨
        (LastAdded changes name origin ∧ (∀ own others, c = .add own others → name ∉ others) ∧
          (c = .normalise → ¬ (after changes).Shadows name)) := by
  constructor
  · rintro ⟨before, names, later, hchanges, hname, hlast, hnormal⟩
    rcases List.eq_nil_or_concat later with rfl | ⟨later, last, rfl⟩
    · left
      obtain ⟨-, hc⟩ := List.append_inj' hchanges rfl
      cases hc
      exact ⟨names, rfl, hname⟩
    · right
      rw [List.concat_eq_append] at hchanges hlast hnormal
      rw [← List.cons_append, ← List.append_assoc] at hchanges
      obtain ⟨rfl, hc⟩ := List.append_inj' hchanges rfl
      cases hc
      refine ⟨⟨before, names, later, rfl, hname, ?_, ?_⟩, ?_, ?_⟩
      · intro own others hadd
        exact hlast own others (List.mem_append_left _ hadd)
      · intro mid rest hlater
        exact hnormal mid (rest ++ [c]) (by rw [hlater]; simp)
      · rintro own others rfl
        exact hlast own others (List.mem_append_right _ (List.mem_singleton.mpr rfl))
      · rintro rfl
        exact hnormal later [] rfl
  · rintro (⟨names, rfl, hname⟩ | ⟨⟨before, names, later, rfl, hname, hlast, hnormal⟩, hadd, hc⟩)
    · refine ⟨changes, names, [], rfl, hname, ?_, ?_⟩
      · intro own others h
        cases h
      · intro mid rest h
        simp at h
    · refine ⟨before, names, later ++ [c], by simp, hname, ?_, ?_⟩
      · intro own others h
        rcases List.mem_append.mp h with h | h
        · exact hlast own others h
        · exact hadd own others (List.mem_singleton.mp h).symm
      · intro mid rest h
        rcases List.eq_nil_or_concat rest with rfl | ⟨rest, last, rfl⟩
        · obtain ⟨rfl, hnormal⟩ := List.append_inj' h rfl
          cases hnormal
          exact hc rfl
        · rw [List.concat_eq_append, ← List.cons_append, ← List.append_assoc] at h
          obtain ⟨rfl, -⟩ := List.append_inj' h rfl
          exact hnormal mid rest rfl

/-- The form of the records of names. -/
structure Ordered (l : Ledger) : Prop where
  added : l.added.Tidy
  removed : l.removed.Tidy
  replaced : l.replaced.Tidy
  /-- No name is added twice, be it by the same origin or by two. -/
  once : (Entries.values l.added).flatten.Nodup

theorem ordered_new : Ordered {} :=
  ⟨NameRecord.tidy_nil, NameRecord.tidy_nil, NameRecord.tidy_nil, List.nodup_nil⟩

theorem Ordered.change {l : Ledger} (h : l.Ordered) (c : NameChange) : (l.change c).Ordered := by
  cases c with
  | add origin names =>
      refine ⟨(h.added.drop names).add origin names, h.removed, h.replaced, ?_⟩
      have hfree : ∀ name ∈ names, name ∉ (Entries.values (l.added.drop names)).flatten := by
        intro name hname hlisted
        rw [NameRecord.flatten_drop, List.mem_filter, decide_eq_true_eq] at hlisted
        exact hlisted.2 hname
      show (Entries.values ((l.added.drop names).add origin names)).flatten.Nodup
      rw [(NameRecord.flatten_add _ origin hfree).nodup_iff, List.nodup_append]
      refine ⟨?_, NameRecord.nodup_addNew List.nodup_nil names, ?_⟩
      · rw [NameRecord.flatten_drop]
        exact h.once.filter _
      · rintro name hlisted _ hnew rfl
        exact hfree name ((NameRecord.mem_addNew.mp hnew).resolve_left List.not_mem_nil) hlisted
  | remove origin names => exact ⟨h.added, h.removed.add origin names, h.replaced, h.once⟩
  | replace origin names => exact ⟨h.added, h.removed, h.replaced.add origin names, h.once⟩
  | normalise =>
      refine ⟨h.added.drop _, h.removed, h.replaced, ?_⟩
      show (Entries.values (l.added.drop _)).flatten.Nodup
      rw [NameRecord.flatten_drop]
      exact h.once.filter _

theorem addedBy?_change_iff (l : Ledger) (c : NameChange) :
    (l.change c).addedBy? name = some origin ↔
      (∃ names, c = .add origin names ∧ name ∈ names) ∨
        (l.addedBy? name = some origin ∧ (∀ own others, c = .add own others → name ∉ others) ∧
          (c = .normalise → ¬ l.Shadows name)) := by
  cases c with
  | add own names =>
      show (l.recordAdded own names).addedBy? name = _ ↔ _
      rw [addedBy?_recordAdded]
      by_cases hname : name ∈ names
      · simp [hname, eq_comm]
      · simp [hname]
  | remove own names | replace own names =>
      simp [Ledger.change, Ledger.addedBy?, recordRemoved, recordReplaced]
  | normalise =>
      show l.normalise.addedBy? name = _ ↔ _
      rw [addedBy?_normalise]
      by_cases hshadowed : l.Shadows name
      · rw [if_pos ((l.shadows_iff name).mp hshadowed)]
        simp [hshadowed]
      · rw [if_neg (mt (l.shadows_iff name).mpr hshadowed)]
        simp [hshadowed]

/-! ## Any changes -/

theorem ordered_after (changes : List NameChange) : (after changes).Ordered := by
  induction changes using List.reverseRecOn with
  | nil => exact ordered_new
  | append_singleton changes c ih =>
      rw [after_snoc]
      exact ih.change c

theorem addedBy?_after_iff (changes : List NameChange) :
    (after changes).addedBy? name = some origin ↔ LastAdded changes name origin := by
  induction changes using List.reverseRecOn with
  | nil =>
      constructor
      · intro h
        cases h
      · rintro ⟨before, names, later, hchanges, _⟩
        simp at hchanges
  | append_singleton changes c ih => rw [after_snoc, addedBy?_change_iff, lastAdded_snoc, ih]

theorem shadows_change_iff (l : Ledger) (c : NameChange) :
    (l.change c).Shadows name ↔ l.Shadows name ∨ name ∈ c.shadowed := by
  cases c with
  | add origin names | normalise =>
      simp [Shadows, Ledger.change, recordAdded, normalise, NameChange.shadowed]
  | remove origin names | replace origin names =>
      simp [Shadows, Ledger.change, recordRemoved, recordReplaced, NameChange.shadowed,
        NameRecord.mem_names_add, or_assoc, or_left_comm, or_comm]

/-- That a name was removed or replaced is never forgotten. -/
theorem shadows_after_iff (changes : List NameChange) :
    (after changes).Shadows name ↔ ∃ c ∈ changes, name ∈ c.shadowed := by
  induction changes using List.reverseRecOn with
  | nil => simp [Shadows, after, NameRecord.names, Entries.values, NameRecord.addNew]
  | append_singleton changes c ih =>
      rw [after_snoc, shadows_change_iff, ih]
      simp only [List.mem_append, List.mem_singleton, or_and_right, exists_or, exists_eq_left]

/-- Normalising takes all names from the added ones that were removed or replaced. -/
theorem not_shadows_of_normalise {l : Ledger} (h : name ∈ l.normalise.added.names) :
    ¬ l.Shadows name := by
  have hkept := (NameRecord.mem_names_drop.mp h).2
  rwa [List.mem_append] at hkept

theorem Ordered.normalise_normalise {l : Ledger} (h : l.Ordered) :
    l.normalise.normalise = l.normalise := by
  have hsame : l.normalise.added.drop (l.removed.names ++ l.replaced.names) =
      l.normalise.added := by
    refine (h.change .normalise).added.drop_eq_self fun name hname hadded => ?_
    exact not_shadows_of_normalise hadded (List.mem_append.mp hname)
  exact congrArg (fun added => { l with added }) hsame

/-- After any changes: no name is added twice and no origin stands there without names. A name was
added by the last one to add it, unless the ledger was normalised later on while it was recorded
as removed or replaced; it is so recorded from the first change on that says so. The names of each
record are those that some origin lists, each once. Normalising leaves the other two records alone,
keeps none of their names, and does nothing more a second time. -/
theorem added_last (changes : List NameChange) :
    (after changes).Ordered ∧
    (∀ name origin, (after changes).addedBy? name = some origin ↔ LastAdded changes name origin) ∧
    (∀ name, (after changes).Shadows name ↔ ∃ c ∈ changes, name ∈ c.shadowed) ∧
    (∀ r ∈ [(after changes).added, (after changes).removed, (after changes).replaced],
      r.names.Nodup ∧
        ∀ name, name ∈ r.names ↔ ∃ origin listed, (origin, listed) ∈ r ∧ name ∈ listed) ∧
    (after changes).normalise.removed = (after changes).removed ∧
    (after changes).normalise.replaced = (after changes).replaced ∧
    (∀ name ∈ (after changes).normalise.added.names, ¬ (after changes).Shadows name) ∧
    (after changes).normalise.normalise = (after changes).normalise := by
  have hordered := ordered_after changes
  refine ⟨hordered, fun name origin => addedBy?_after_iff changes,
    fun name => shadows_after_iff changes, ?_, rfl, rfl, ?_, hordered.normalise_normalise⟩
  · intro r _
    exact ⟨r.nodup_names, fun name => r.mem_names_iff⟩
  · intro name hname
    exact not_shadows_of_normalise hname

end Ledger

/-! ## A name that is added again -/

namespace Readded

def first : Origin := ⟨"App.Attrs", none⟩

def second : Origin := ⟨"App.Methods", none⟩

/-- One name is taken over by another origin, one is removed and added anew, one is removed. -/
def changes : List NameChange :=
  [.add first ["x", "y", "z", "x"], .add second ["x"], .remove first ["y", "z"], .normalise,
    .add second ["y", "w"]]

theorem added_last_changes :
    Ledger.LastAdded changes "x" second ∧ Ledger.LastAdded changes "y" second ∧
    (∀ origin, ¬ Ledger.LastAdded changes "z" origin) ∧
    (Ledger.after changes).removed.names.Nodup ∧
    ¬ (Ledger.after changes).Shadows "w" := by
  obtain ⟨_, hlast, _, hnames, _, _, hnormal, _⟩ := Ledger.added_last changes
  refine ⟨(hlast "x" second).mp (by decide +kernel), (hlast "y" second).mp (by decide +kernel),
    ?_, (hnames _ (by simp)).1, hnormal "w" (by decide +kernel)⟩
  intro origin horigin
  have hnone : (Ledger.after changes).addedBy? "z" = none := by
    decide +kernel
  cases hnone.symm.trans ((hlast "z" origin).mpr horigin)

end Readded

end AppAssembly
