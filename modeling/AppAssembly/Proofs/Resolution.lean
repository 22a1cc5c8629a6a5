import AppAssembly.Proofs.Hierarchy
import AppAssembly.Proofs.Moments
import Mathlib.Logic.Function.Iterate

/-!
# Resolving delegates

A delegate whose cell waits leads on to the head of its path, and from there perhaps to further
delegates. The look-up of a name follows this chain; it always ends, since every delegate on the way
is marked (`iterate_lookupStep`), and it fails for a circle exactly if the chain comes to a delegate
twice.

A look-up marks the delegates on its way, so the statement that carries the induction speaks of
instances with marked cells: the look-up fails for a circle exactly if the chain comes to a marked
cell or to a delegate twice (`lookup_circular_iff`).
-/

namespace AppAssembly

open Instance Relation

variable {i : Instance} {name other : String} {d : Delegate} {α β : Type}

/-! ## The report on a circle -/

/-- Whether the error reports a delegate that is needed to resolve itself. -/
def Error.isSelfReference : Error → Bool
  | .developer (.selfReference ..) => true
  | _ => false

/-- Resolving failed since it came back to a delegate. -/
def Circular (r : Except Error α) : Prop :=
  ∃ e, r = .error e ∧ e.isSelfReference = true

theorem not_circular_ok (a : α) : ¬ Circular (.ok a : Except Error α) := by
  rintro ⟨e, h, _⟩
  cases h

theorem circular_error_iff {e : Error} :
    Circular (.error e : Except Error α) ↔ e.isSelfReference = true := by
  constructor
  · rintro ⟨e', h, he⟩
    cases h
    exact he
  · intro he
    exact ⟨e, rfl, he⟩

theorem circular_map_iff (f : α → β) (r : Except Error α) : Circular (r.map f) ↔ Circular r := by
  cases r with
  | ok a => exact iff_of_false (not_circular_ok _) (not_circular_ok _)
  | error e => exact circular_error_iff.trans circular_error_iff.symm

theorem Error.isSelfReference_intoRequirement (use : PathUse) (identity : String) (origin : Origin)
    (e : Error) : (e.intoRequirement use identity origin).isSelfReference = e.isSelfReference := by
  cases e <;> rfl

/-- Following the rest of a path brings no such report. -/
theorem circular_follow_iff (p : Path) (root : String) (first : Except Error (Option Value)) :
    Circular (first.bind (p.follow root)) ↔ Circular first := by
  cases first with
  | error e => exact circular_error_iff.trans circular_error_iff.symm
  | ok first =>
      refine iff_of_false ?_ (not_circular_ok _)
      show ¬ Circular (p.follow root first)
      unfold Path.follow Path.notFound
      split
      · simp [circular_error_iff, Error.isSelfReference]
      · split
        · exact not_circular_ok _
        · simp [circular_error_iff, Error.isSelfReference]

theorem Delegate.circular_conclude_iff (d : Delegate) (root : String)
    (first : Except Error (Option Value)) :
    Circular (d.conclude root first).1 ↔ Circular first := by
  refine Iff.trans ?_ (circular_follow_iff (Path.ofText d.path) root first)
  unfold conclude settle
  cases first.bind ((Path.ofText d.path).follow root) with
  | ok v => exact iff_of_false (not_circular_ok _) (not_circular_ok _)
  | error e =>
      rw [circular_error_iff, circular_error_iff, Error.isSelfReference_intoRequirement]

/-! ## The chain of delegates -/

namespace Instance

/-- The delegate under one name waits for its path, and this begins with the other name. -/
def Leads (i : Instance) (name next : String) : Prop :=
  ∃ d, i.pending? name = some d ∧ d.head = next

/-- Resolving the delegate under one name goes on with the other name: an empty one leads
nowhere. -/
def Follows (i : Instance) (name next : String) : Prop :=
  i.Leads name next ∧ next ≠ ""

instance (i : Instance) (name next : String) : Decidable (i.Leads name next) :=
  decidable_of_iff ((i.pending? name).map Delegate.head = some next) Option.map_eq_some_iff

instance (i : Instance) (name next : String) : Decidable (i.Follows name next) :=
  inferInstanceAs (Decidable (_ ∧ _))

/-- The cell is marked. -/
def Marked (i : Instance) (name : String) : Prop :=
  ∃ d, i.cells.get? name = some (d, .resolving)

/-- The chain from a name comes to a delegate that it comes to again. -/
def Circles (i : Instance) (name : String) : Prop :=
  ∃ k, ReflTransGen i.Follows name k ∧ TransGen i.Follows k k

/-- The chain from a name comes to a marked cell, or to a delegate twice. -/
def Stuck (i : Instance) (name : String) : Prop :=
  ∃ k, ReflTransGen i.Follows name k ∧ (i.Marked k ∨ TransGen i.Follows k k)

theorem Follows.eq_head {next : String} (h : i.Follows name next) (hd : i.pending? name = some d) :
    next = d.head := by
  obtain ⟨⟨d', hd', rfl⟩, _⟩ := h
  rw [hd] at hd'
  cases hd'
  rfl

theorem not_follows (h : i.pending? name = none) (next : String) : ¬ i.Follows name next := by
  rintro ⟨⟨d, hd, _⟩, _⟩
  rw [h] at hd
  cases hd

theorem Idle.stuck_iff (hi : i.Idle) : i.Stuck name ↔ i.Circles name := by
  constructor
  · rintro ⟨k, hreach, ⟨d, hd⟩ | hcircle⟩
    · exact absurd hd (hi k d)
    · exact ⟨k, hreach, hcircle⟩
  · rintro ⟨k, hreach, hcircle⟩
    exact ⟨k, hreach, .inr hcircle⟩

/-- Where nothing waits, the chain ends. -/
theorem stuck_settled_iff (h : i.pending? name = none) : i.Stuck name ↔ i.Marked name := by
  constructor
  · rintro ⟨k, hreach, hk⟩
    rcases hreach.cases_head with rfl | ⟨next, hnext, _⟩
    · rcases hk with hmarked | hcircle
      · exact hmarked
      · obtain ⟨next, hnext, _⟩ := TransGen.head'_iff.mp hcircle
        exact absurd hnext (not_follows h next)
    · exact absurd hnext (not_follows h next)
  · intro hmarked
    exact ⟨name, .refl, .inl hmarked⟩

/-! ## Marking a delegate -/

theorem follows_mark_iff {next : String} :
    (i.putCell name d .resolving).Follows other next ↔ name ≠ other ∧ i.Follows other next := by
  unfold Follows Leads
  rw [pending?_putCell]
  by_cases h : name = other
  · simp [h]
  · simp [h]

theorem marked_mark_iff :
    (i.putCell name d .resolving).Marked other ↔ name = other ∨ i.Marked other := by
  unfold Marked
  rw [get?_putCell]
  by_cases h : name = other
  · simp [h]
  · simp [h]

theorem follows_mark_le : (i.putCell name d .resolving).Follows ≤ i.Follows :=
  fun _ _ h => (follows_mark_iff.mp h).2

/-- A chain that is cut at a marked delegate still leads to the same name, or else to that
delegate. -/
theorem reach_mark {start last : String} (h : ReflTransGen i.Follows start last) :
    ReflTransGen (i.putCell name d .resolving).Follows start last ∨
      ReflTransGen (i.putCell name d .resolving).Follows start name := by
  induction h with
  | refl => exact .inl .refl
  | @tail k next _ hnext ih =>
      rcases ih with ih | ih
      · by_cases hk : name = k
        · exact .inr (hk ▸ ih)
        · exact .inl (ih.tail (follows_mark_iff.mpr ⟨hk, hnext⟩))
      · exact .inr ih

/-- The chain from a delegate is stuck exactly if it is so from the head of its path on, with the
delegate marked: coming back to it is then coming to a marked cell. -/
theorem stuck_pending_iff (h : i.pending? name = some d) :
    i.Stuck name ↔ d.head ≠ "" ∧ (i.putCell name d .resolving).Stuck d.head := by
  have hself : (i.putCell name d .resolving).Marked name := marked_mark_iff.mpr (.inl rfl)
  constructor
  · rintro ⟨k, hreach, hk⟩
    rcases hreach.cases_head with rfl | ⟨next, hnext, hrest⟩
    · rcases hk with ⟨d', hmarked⟩ | hcircle
      · rw [pending?_eq_some_iff.mp h] at hmarked
        cases hmarked
      -- the delegate is on the circle itself
      · obtain ⟨next, hnext, hback⟩ := TransGen.head'_iff.mp hcircle
        obtain rfl := hnext.eq_head h
        exact ⟨hnext.2, name, (reach_mark hback).elim id id, .inl hself⟩
    · obtain rfl := hnext.eq_head h
      refine ⟨hnext.2, ?_⟩
      -- wherever the mark cuts the chain, that has come to the marked delegate
      rcases reach_mark hrest with hrest | hrest
      · by_cases hname : name = k
        · exact ⟨k, hrest, .inl (hname ▸ hself)⟩
        · rcases hk with hmarked | hcircle
          · exact ⟨k, hrest, .inl (marked_mark_iff.mpr (.inr hmarked))⟩
          · obtain ⟨next, hnext', hback⟩ := TransGen.head'_iff.mp hcircle
            have hfirst : (i.putCell name d .resolving).Follows k next :=
              follows_mark_iff.mpr ⟨hname, hnext'⟩
            rcases reach_mark hback with hback | hback
            · exact ⟨k, hrest, .inr (.head' hfirst hback)⟩
            · exact ⟨name, hrest.trans (hback.head hfirst), .inl hself⟩
      · exact ⟨name, hrest, .inl hself⟩
  · rintro ⟨hhead, k, hreach, hk⟩
    have hfirst : i.Follows name d.head := ⟨⟨d, h, rfl⟩, hhead⟩
    have hreach' : ReflTransGen i.Follows d.head k :=
      ReflTransGen.mono follows_mark_le _ _ hreach
    rcases hk with hmarked | hcircle
    · rcases marked_mark_iff.mp hmarked with rfl | hmarked
      · exact ⟨name, .refl, .inr (.head' hfirst hreach')⟩
      · exact ⟨k, hreach'.head hfirst, .inl hmarked⟩
    · exact ⟨k, hreach'.head hfirst, .inr (TransGen.mono follows_mark_le _ _ hcircle)⟩

/-! ## When a look-up fails for a circle -/

theorem circular_seek_iff : Circular (seek name i).1 ↔ name ≠ "" ∧ Circular (lookup name i).1 := by
  by_cases h : name = ""
  · simp [h, not_circular_ok]
  · simp [h, seek_of_ne h]

theorem lookup_circular_iff (hi : i.Exposed) (name : String) :
    Circular (lookup name i).1 ↔ i.Stuck name := by
  refine lookup_induct (motive := fun i name => Circular (lookup name i).1 ↔ i.Stuck name)
    ?settled ?pending hi name
  case settled =>
    intro i name hi h
    rw [stuck_settled_iff h]
    unfold Marked
    rcases hcell : i.cells.get? name with _ | ⟨d, c⟩
    · rw [lookup_bare hcell]
      simp [not_circular_ok]
    · cases c with
      | unresolved =>
          rw [pending?_eq_some_iff.mpr hcell] at h
          cases h
      | resolving =>
          rw [lookup_answer hi hcell rfl, circular_map_iff, circular_error_iff]
          simp [Delegate.selfReference, Error.isSelfReference]
      | resolved v =>
          rw [lookup_answer hi hcell rfl, circular_map_iff]
          simp [not_circular_ok]
  case pending =>
    intro i name d hi h ih
    rw [lookup_pending hi h, stuck_pending_iff h]
    show Circular ((d.conclude i.describe _).1.map some) ↔ _
    rw [circular_map_iff, d.circular_conclude_iff, circular_seek_iff, ih]

/-! ## How deep a look-up goes -/

/-- One level of a look-up, where something else looks up the head of a path. -/
def lookupStep (deeper : String → Act Instance (Option Value)) (name : String) :
    Act Instance (Option Value) := fun i =>
  match i.attrs.get? name with
  | some v => (.ok (some v), i)
  | none =>
      match i.compiled.member? name with
      | none | some (_, ⟨.deferred, _⟩) => (.ok none, i)
      | some (_, ⟨.value v, _⟩) => (.ok (some v), i)
      | some (_, ⟨.delegate _, _⟩) =>
          match i.cells.get? name with
          | none => (.ok none, i)
          | some (d, c) =>
              match d.answer? c with
              | some answer => (answer.map some, i)
              | none =>
                  let path := Path.ofText d.path
                  let begun := i.putCell name d .resolving
                  let (first, j) :=
                    if path.head = "" then (.ok none, begun) else deeper path.head begun
                  let (answer, c) := d.settle (first.bind (path.follow i.describe)) (j.cell name)
                  (answer.map some, j.putCell name d c)

/-- One level is enough if the head of the path is looked up as it should be. -/
theorem lookupStep_eq_lookup {deeper : String → Act Instance (Option Value)}
    (h : ∀ d c, i.cells.get? name = some (d, c) → d.answer? c = none →
      deeper d.head (i.putCell name d .resolving) = lookup d.head (i.putCell name d .resolving)) :
    lookupStep deeper name i = lookup name i := by
  fun_cases lookup name i with
  | case1 v hattrs => simp only [lookupStep, hattrs]
  | case2 hattrs hmember => simp only [lookupStep, hattrs, hmember]
  | case3 hattrs _ _ hmember => simp only [lookupStep, hattrs, hmember]
  | case4 hattrs _ v _ hmember => simp only [lookupStep, hattrs, hmember]
  | case5 hattrs _ _ _ hmember hcell => simp only [lookupStep, hattrs, hmember, hcell]
  | case6 hattrs _ _ _ hmember d c hcell answer hanswer =>
      simp only [lookupStep, hattrs, hmember, hcell, hanswer]
  | case7 hattrs _ _ _ hmember d c hcell hanswer path begun first j hfirst answer c' hsettle =>
      have hdeeper : (if path.head = "" then (.ok none, begun) else deeper path.head begun) =
          (first, j) := by
        rw [← hfirst, show deeper path.head begun = lookup path.head begun from h d c hcell hanswer]
      simp only [lookupStep, hattrs, hmember, hcell, hanswer]
      rw [hdeeper, hsettle]

/-- As many levels as delegates wait, and one more, make a look-up, whatever is below them. -/
theorem iterate_lookupStep (deeper : String → Act Instance (Option Value)) {n : Nat}
    (hn : i.waiting < n) (name : String) : lookupStep^[n] deeper name i = lookup name i := by
  induction n generalizing i name with
  | zero => exact absurd hn (Nat.not_lt_zero _)
  | succ n ih =>
      rw [Function.iterate_succ_apply']
      refine lookupStep_eq_lookup fun d c hcell hanswer => ih ?_ d.head
      have hless := waiting_putCell_lt hcell hanswer
      exact Nat.lt_of_lt_of_le hless (Nat.le_of_lt_succ hn)

theorem resolve_iterate (deeper : String → Act Instance (Option Value)) (i : Instance)
    (path : String) :
    Namespace.resolve ⟨i.describe, lookupStep^[i.waiting + 1] deeper⟩ path i = get path i := by
  have hhead : Namespace.lookupHead ⟨i.describe, lookupStep^[i.waiting + 1] deeper⟩
      (Path.ofText path) i = i.asNamespace.lookupHead (Path.ofText path) i := by
    unfold Namespace.lookupHead
    split
    · rfl
    · exact iterate_lookupStep deeper (Nat.lt_succ_self _) _
  unfold get Namespace.resolve
  rw [Act.bind_apply, Act.bind_apply, hhead]
  rfl

/-! ## Every resolution ends -/

theorem circular_get_iff (path : String) (i : Instance) :
    Circular (get path i).1 ↔ Circular (seek (Path.ofText path).head i).1 := by
  rw [get_apply]
  exact circular_follow_iff _ _ _

/-- At any moment in the life of an instance, any path can be resolved: that takes no more levels
than delegates are waiting, and one more; it leaves no cell marked; and it fails for a circle
exactly if the chain of delegates from the first segment on has one. -/
theorem Reachable.resolution_ends (h : Reachable i) (path : String) :
    (∀ deeper, Namespace.resolve ⟨i.describe, lookupStep^[i.waiting + 1] deeper⟩ path i =
      get path i) ∧
    (get path i).2.Idle ∧
    (Circular (get path i).1 ↔
      (Path.ofText path).head ≠ "" ∧ i.Circles (Path.ofText path).head) := by
  refine ⟨fun deeper => resolve_iterate deeper i path, ?_, ?_⟩
  · exact h.idle.resolves (get_resolves path i)
  · rw [circular_get_iff, circular_seek_iff, lookup_circular_iff h.exposed, h.idle.stuck_iff]

end Instance

/-! ## A ring of delegates -/

namespace Ring

/-- A type with a ring of two delegates, one that leads to the ring, and two that don't, one of them
under the empty name. -/
def compilation : Compilation :=
  .ofOk .builtIn 0
    { name := "Ring"
      blocks := [{
        identity := "Methods"
        entries := [("tail", .str "left.end"), ("left", .str "right"), ("right", .str "left"),
          ("lost", .str "nowhere"), ("", .str "")] }] }
    [] (by decide +kernel)

def start : Instance :=
  Instance.ofType compilation.compiled

/-- The ring is found from its tail, with no more than six levels of look-ups. -/
theorem resolution_ends_start :
    Namespace.resolve ⟨start.describe, lookupStep^[start.waiting + 1] fun _ => Act.fail .tooDeep⟩
      "tail" start = Instance.get "tail" start ∧
    start.waiting = 5 ∧
    (Instance.get "tail" start).2.Idle ∧
    Circular (Instance.get "tail" start).1 := by
  have hstart : Reachable start := .ofType compilation.compiled
  obtain ⟨hlevels, hidle, hcircular⟩ := hstart.resolution_ends "tail"
  refine ⟨hlevels _, by decide +kernel, hidle, hcircular.mpr ⟨by decide, "left", ?_, ?_⟩⟩
  · exact .single (by decide +kernel)
  · exact .tail (.single (by decide +kernel : start.Follows "left" "right")) (by decide +kernel)

/-- An empty segment ends the chain, even where a delegate has the empty name. -/
theorem empty_segment_leads_nowhere :
    ¬ ∀ i path, Reachable i → (Circular (Instance.get path i).1 ↔
      ∃ k, ReflTransGen i.Leads (Path.ofText path).head k ∧ TransGen i.Leads k k) := by
  intro hclaim
  have hcircular := (hclaim start "" (.ofType compilation.compiled)).mpr
    ⟨"", .refl, .single (by decide +kernel)⟩
  rw [circular_get_iff, show (Path.ofText "").head = "" from rfl, seek_empty] at hcircular
  exact not_circular_ok _ hcircular

end Ring

end AppAssembly
