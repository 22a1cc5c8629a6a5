import AppAssembly.Proofs.Hierarchy
import AppAssembly.Proofs.Moments

/-!
# What setting a name does

A value that was set under a name stays there until the name is set again, whatever is done to the
instance in the meantime. It lives in one of two places, the attributes or the cell of a delegate
(`Holds`); no move takes it from there, for a value that is placed hides no delegate, and what is
created later on goes to other names. So a name has the value that it was set to last
(`Becomes.holds`).
-/

namespace AppAssembly

open Instance

variable {α : Type} {i j : Instance} {name other : String} {v : Value}

/-! ## Plain names -/

theorem Path.ofText_of_isPlain (h : isPlain name = true) : Path.ofText name = ⟨name, name, []⟩ := by
  simp only [isPlain, Bool.and_eq_true, Bool.not_eq_true', List.contains_eq_mem,
    decide_eq_false_iff_not] at h
  simp [ofText, Text.splitAt_of_not_mem h.2]

theorem Path.ofText_pair {key : String} (hname : isPlain name = true)
    (hkey : isPlain key = true) :
    Path.ofText (name ++ "." ++ key) = ⟨name ++ "." ++ key, name, [key]⟩ := by
  simp only [isPlain, Bool.and_eq_true, Bool.not_eq_true', List.contains_eq_mem,
    decide_eq_false_iff_not] at hname hkey
  have htext : (name ++ "." ++ key).toList = name.toList ++ '.' :: key.toList := by
    simp
  simp [ofText, htext, Text.splitAt_append_cons hname.2, Text.splitAt_of_not_mem hkey.2]

namespace Instance

/-- A plain name leads to what is under it. -/
theorem get_of_lookup (hplain : isPlain name = true) (h : lookup name i = (.ok (some v), j)) :
    get name i = (.ok v, j) := by
  have hne : name ≠ "" := by
    rintro rfl
    cases hplain
  rw [get_apply, Path.ofText_of_isPlain hplain, seek_of_ne hne, h]
  rfl

/-- A path of two names leads to what is under the second in what is under the first. -/
theorem get_pair {key : String} {first : Option Value}
    (hname : isPlain name = true) (hkey : isPlain key = true)
    (h : lookup name i = (.ok first, j)) (v : Value) :
    (get (name ++ "." ++ key) i).1 = .ok v ↔ (first.bind fun u => u.lookup key) = some v := by
  have hne : name ≠ "" := by
    rintro rfl
    cases hname
  have hne' : key ≠ "" := by
    rintro rfl
    cases hkey
  rw [get_apply, Path.ofText_pair hname hkey, seek_of_ne hne, h]
  cases first with
  | none => simp [Except.bind, Path.follow]
  | some u =>
      show Path.follow _ _ (some u) = _ ↔ u.lookup key = some v
      unfold Path.follow
      simp only [Path.walk, if_neg hne']
      cases u.lookup key with
      | none => simp
      | some found => simp

/-! ## What setting changes -/

theorem set_error {e : Error} (h : (set name v i).1 = .error e) : (set name v i).2 = i := by
  rcases set_cases name v i with ⟨_, _, _, hset⟩ | ⟨_, _, hset⟩ | ⟨_, hset⟩
  · rw [hset] at h
    cases h
  · rw [hset] at h
    cases h
  · rw [hset]

theorem set_written (h : (set name v i).1 = .ok ()) :
    (set name v i).2.written = i.written ++ [(name, v)] := by
  rcases set_cases name v i with ⟨_, _, _, hset⟩ | ⟨_, _, hset⟩ | ⟨e, hset⟩
  · rw [hset]
    rfl
  · rw [hset]
    rfl
  · rw [hset] at h
    cases h

/-- What there is under one name was left alone. -/
structure Spares (name : String) (i j : Instance) : Prop where
  compiled : j.compiled = i.compiled
  materialized : j.materialized = i.materialized
  attrs : j.attrs.get? name = i.attrs.get? name
  cells : j.cells.get? name = i.cells.get? name

theorem spares_set (v : Value) (hne : name ≠ other) (i : Instance) :
    i.Spares other (set name v i).2 := by
  rcases set_cases name v i with ⟨d, c, _, hset⟩ | ⟨_, _, hset⟩ | ⟨e, hset⟩
  · rw [hset]
    exact ⟨rfl, rfl, rfl, Entries.get?_insert_of_ne _ _ hne⟩
  · rw [hset]
    exact ⟨rfl, rfl, Entries.get?_insert_of_ne _ _ hne, rfl⟩
  · rw [hset]
    exact ⟨rfl, rfl, rfl, rfl⟩

/-- Setting a name doesn't change what is found along a path from another name, unless a delegate
is waiting there. -/
theorem get_set_other (hi : i.Exposed) (v : Value) {path : String}
    (hne : name ≠ (Path.ofText path).head) (h : i.pending? (Path.ofText path).head = none) :
    (get path (set name v i).2).1 = (get path i).1 := by
  have hset := spares_set v hne i
  exact get_congr hset.compiled
    (lookup_settled_congr hi (hi.set name v) h hset.compiled hset.attrs hset.cells)

/-! ## Where a value is -/

/-- The value stays under the name until that is set again. -/
def Holds (i : Instance) (name : String) (v : Value) : Prop :=
  (i.attrs.get? name = some v ∧ i.cells.get? name = none ∧ i.awaits name = false) ∨
    ∃ d, i.cells.get? name = some (d, .resolved v)

theorem Holds.get_eq (h : i.Holds name v) (hi : i.Exposed) (hplain : isPlain name = true) :
    (get name i).1 = .ok v := by
  have hfound : lookup name i = (.ok (some v), i) := by
    rcases h with ⟨hattrs, hcell, _⟩ | ⟨d, hcell⟩
    · rw [lookup_bare hcell, hattrs]
      rfl
    · rw [lookup_answer hi hcell rfl]
      rfl
  rw [get_of_lookup hplain hfound]

/-! ## What a move does to it -/

theorem Holds.resolves (h : i.Holds name v) (hj : i.Resolves j) : j.Holds name v := by
  rcases h with ⟨hattrs, hcell, hawaits⟩ | ⟨d, hcell⟩
  · left
    refine ⟨?_, ?_, ?_⟩
    · rw [hj.rest]
      exact hattrs
    · rcases hj.cells name with hsame | ⟨_, _, hd, _⟩
      · rw [hsame, hcell]
      · cases hcell.symm.trans hd
    · rw [hj.rest]
      exact hawaits
  · exact .inr ⟨d, hj.get?_eq hcell (by simp)⟩

/-- A name that awaits nothing never does so later on. -/
theorem Places.awaits_eq_false (h : i.Places j) (hi : i.awaits name = false) :
    j.awaits name = false := by
  rw [Bool.eq_false_iff] at hi ⊢
  intro hj
  obtain ⟨hnew, hmember⟩ := awaits_eq_true_iff.mp hj
  refine hi (awaits_eq_true_iff.mpr ⟨?_, h.compiled ▸ hmember⟩)
  cases hm : i.materialized with
  | false => rfl
  | true => exact (h.materialized hm).symm.trans hnew

theorem Holds.places (h : i.Holds name v) (hj : i.Places j) : j.Holds name v := by
  rcases h with ⟨hattrs, hcell, hawaits⟩ | ⟨d, hcell⟩
  · exact .inl ⟨(hj.attrs name hawaits).trans hattrs, hj.cells ▸ hcell,
      hj.awaits_eq_false hawaits⟩
  · exact .inr ⟨d, hj.cells ▸ hcell⟩

theorem holds_set (hset : (set name v i).1 = .ok ()) : (set name v i).2.Holds name v := by
  rcases set_cases name v i with ⟨d, c, _, h⟩ | ⟨hcell, hawaits, h⟩ | ⟨e, h⟩
  · rw [h]
    exact .inr ⟨d, Entries.get?_insert_self _ _ _⟩
  · rw [h]
    exact .inl ⟨Entries.get?_insert_self _ _ _, hcell, hawaits⟩
  · rw [h] at hset
    cases hset

theorem Holds.set_other (h : i.Holds name v) (hne : other ≠ name) (w : Value) :
    (Instance.set other w i).2.Holds name v := by
  have hset := spares_set w hne i
  rcases h with ⟨hattrs, hcell, hawaits⟩ | ⟨d, hcell⟩
  · refine .inl ⟨hset.attrs.trans hattrs, hset.cells.trans hcell, ?_⟩
    unfold awaits
    rw [hset.compiled, hset.materialized]
    exact hawaits
  · exact .inr ⟨d, hset.cells.trans hcell⟩

/-! ## What a name was set to last -/

/-- The value of a name after some further sets. -/
def lastSet (name : String) (v : Value) (sets : List (String × Value)) : Value :=
  sets.foldl (fun last entry => if entry.1 = name then entry.2 else last) v

theorem lastSet_append (name : String) (v : Value) (first second : List (String × Value)) :
    lastSet name v (first ++ second) = lastSet name (lastSet name v first) second :=
  List.foldl_append

theorem lastSet_of_not_mem {sets : List (String × Value)} (h : ∀ w, (name, w) ∉ sets) :
    lastSet name v sets = v := by
  induction sets with
  | nil => rfl
  | cons entry sets ih =>
      obtain ⟨other, w⟩ := entry
      have hne : other ≠ name := by
        rintro rfl
        exact h w List.mem_cons_self
      show lastSet name (if other = name then w else v) sets = v
      rw [if_neg hne]
      exact ih fun w' hw' => h w' (List.mem_cons_of_mem _ hw')

/-- Each move of an instance is a set that is remembered, or leaves the value where it is. -/
theorem Move.holds (hmove : Move i j) (h : i.Holds name v) :
    ∃ later, j.written = i.written ++ later ∧ j.Holds name (lastSet name v later) := by
  rcases hmove.effect with hj | ⟨other, w, rfl⟩ | hj
  · refine ⟨[], ?_, h.resolves hj⟩
    rw [hj.rest, List.append_nil]
  · cases hset : (Instance.set other w i).1 with
    | error e =>
        rw [set_error hset]
        exact ⟨[], (List.append_nil _).symm, h⟩
    | ok _ =>
        refine ⟨[(other, w)], set_written hset, ?_⟩
        by_cases hname : other = name
        · subst hname
          simpa [lastSet] using holds_set hset
        · simpa [lastSet, hname] using h.set_other hname w
  · exact ⟨[], by rw [hj.written, List.append_nil], h.places hj⟩

theorem Becomes.holds (hrun : i.Becomes j) (h : i.Holds name v) :
    ∃ later, j.written = i.written ++ later ∧ j.Holds name (lastSet name v later) := by
  induction hrun with
  | refl => exact ⟨[], by rw [List.append_nil], h⟩
  | tail _ hmove ih =>
      obtain ⟨later, hlater, hk⟩ := ih
      obtain ⟨last, hlast, hl⟩ := hmove.holds hk
      refine ⟨later ++ last, ?_, ?_⟩
      · rw [hlast, hlater, List.append_assoc]
      · rw [lastSet_append]
        exact hl

end Instance

/-- A set that fails changes nothing. One that succeeds leaves other names as they are, unless a
delegate is waiting there, and is remembered. From then on a plain name has the value that it was
set to last, whatever else is done to the instance, from outside or by native code. -/
theorem Client.sets_last {eval : Evaluator} (heval : eval.Free) {act : Act Instance α}
    (h : Client true eval act) (hi : Reachable i) (name : String) (v : Value) :
    (∀ e, (Instance.set name v i).1 = .error e → (Instance.set name v i).2 = i) ∧
    ((Instance.set name v i).1 = .ok () →
      (∀ path, name ≠ (Path.ofText path).head → i.pending? (Path.ofText path).head = none →
        (Instance.get path (Instance.set name v i).2).1 = (Instance.get path i).1) ∧
      (Instance.set name v i).2.written = i.written ++ [(name, v)] ∧
      (isPlain name = true → ∀ k, (Instance.set name v i).2.Becomes k → ∃ later,
        (act k).2.written = (Instance.set name v i).2.written ++ later ∧
        (Instance.get name (act k).2).1 = .ok (lastSet name v later))) := by
  refine ⟨fun e he => set_error he, fun hset => ⟨?_, set_written hset, ?_⟩⟩
  · intro path hne hsettled
    exact get_set_other hi.exposed v hne hsettled
  · intro hplain k hk
    have hrun : (Instance.set name v i).2.Becomes (act k).2 := Trans.trans hk (h.becomes heval k)
    have hreachable := (hi.move (.set i name v)).becomes hrun
    obtain ⟨later, hlater, hholds⟩ := hrun.holds (holds_set hset)
    exact ⟨later, hlater, hholds.get_eq hreachable.exposed hplain⟩

/-! ## A delegate that was set early -/

namespace Early

/-- A method that sets another name and then bootstraps the instance it is called on. -/
def poke : Callable :=
  ⟨.given 0, "poke", [], false, none, .andThen (.set "mood" (.str "good")) .bootstrap⟩

/-- What is built for the type, which a delegate of it leads to. -/
def factory : Factory :=
  ⟨.given 1, "Part", [], [], none, .constant (.int 3)⟩

def compilation : Compilation :=
  .ofOk .builtIn 0
    { name := "Early"
      blocks := [
        { identity := "Part", mainType := some factory },
        { identity := "Methods", entries := [("limit", .str "part")] }]
      members := [("poke", .callable poke)] }
    [] (by decide +kernel)

def start : Instance :=
  Instance.ofType compilation.compiled

def drive : Act Instance Value :=
  Instance.call native "poke" []

theorem drive_client : Client true native drive :=
  .call "poke" []

/-- The value is still there when the path of the delegate leads somewhere, and after a failure. -/
theorem sets_last_drive :
    (Instance.set "limit" (.int 5) start).1 = .ok () ∧
    (drive (Instance.set "limit" (.int 5) start).2).2.phase = .validated ∧
    (Instance.get "limit" (drive (Instance.set "limit" (.int 5) start).2).2).1 = .ok (.int 5) := by
  have hdone : (Instance.set "limit" (.int 5) start).1.isOk = true := by
    decide +kernel
  have hset : (Instance.set "limit" (.int 5) start).1 = .ok () := by
    cases h : (Instance.set "limit" (.int 5) start).1 with
    | ok _ => rfl
    | error e =>
        rw [h] at hdone
        cases hdone
  refine ⟨hset, by decide +kernel, ?_⟩
  have hstart : Reachable start := .ofType compilation.compiled
  obtain ⟨_, hok⟩ := drive_client.sets_last native_free hstart "limit" (.int 5)
  obtain ⟨_, _, hlast⟩ := hok hset
  obtain ⟨later, hlater, hget⟩ := hlast (by decide) _ (Std.Refl.refl _)
  have hbefore : (Instance.set "limit" (.int 5) start).2.written.map Prod.fst = ["limit"] := by
    decide +kernel
  have hafter : (drive (Instance.set "limit" (.int 5) start).2).2.written.map Prod.fst =
      ["limit", "mood"] := by
    decide +kernel
  rw [hlater, List.map_append, hbefore] at hafter
  have hnames : later.map Prod.fst = ["mood"] := List.tail_eq_of_cons_eq hafter
  rw [hget, lastSet_of_not_mem]
  intro w hw
  have hmem : "limit" ∈ later.map Prod.fst := List.mem_map_of_mem hw
  rw [hnames] at hmem
  exact absurd hmem (by decide)

end Early

end AppAssembly
