import AppAssembly.Proofs.Resolution

/-!
# What cells remember

A delegate that was resolved keeps its value in its cell, and with it, as long as nothing is set,
whatever a look-up would find: what was looked up before, and in which order, can't be seen.

A cell that was filled meanwhile holds what a look-up finds under its name in the instance as it was
(`Agrees`). This makes look-ups find the same (`lookup_agrees`), for which a delegate that leads to
the name is marked in both instances; the name is still found then, as its chain can't come back to
that delegate (`not_back`). And every look-up leaves cells behind which are filled that way
(`lookup_caches`).
-/

namespace AppAssembly

open Instance Relation

variable {i j : Instance} {name other : String} {d : Delegate}

namespace Instance

/-- The cell is as in the first instance, or it got the value that is found there. -/
def Agrees (i j : Instance) (name : String) : Prop :=
  j.cells.get? name = i.cells.get? name ∨
    ∃ d v, i.cells.get? name = some (d, .unresolved) ∧ j.cells.get? name = some (d, .resolved v) ∧
      (lookup name i).1 = .ok (some v)

/-! ## Marked delegates -/

theorem not_stuck_of_found (hi : i.Exposed) {found : Option Value}
    (hfound : (lookup name i).1 = .ok found) : ¬ i.Stuck name := by
  rw [← lookup_circular_iff hi name, hfound]
  exact not_circular_ok found

/-- A name that is found doesn't lead back to a delegate that leads to it. -/
theorem not_back (hi : i.Exposed) {found : Option Value} (hfound : (lookup other i).1 = .ok found)
    (h : TransGen i.Follows name other) : ¬ ReflTransGen i.Follows other name := by
  intro hback
  exact not_stuck_of_found hi hfound ⟨other, .refl, .inr (.trans_right hback h)⟩

/-- A chain that stays away from a delegate comes to the same cells whether that is marked or
not. -/
theorem agrees_unmarked (h : ¬ ReflTransGen (i.putCell name d .resolving).Follows other name)
    {last : String} (hlast : ReflTransGen (i.putCell name d .resolving).Follows other last) :
    (i.putCell name d .resolving).Agrees i last := by
  have hne : name ≠ last := by
    rintro rfl
    exact h hlast
  left
  rw [get?_putCell, if_neg hne]

/-- Marking a delegate in both instances changes nothing about other names that are still found. -/
theorem Agrees.mark (h : i.Agrees j other)
    (hfound : ∀ v, (lookup other i).1 = .ok v →
      (lookup other (i.putCell name d .resolving)).1 = .ok v) :
    (i.putCell name d .resolving).Agrees (j.putCell name d .resolving) other := by
  unfold Agrees
  rw [get?_putCell, get?_putCell]
  by_cases hname : name = other
  · simp [hname]
  · rw [if_neg hname, if_neg hname]
    rcases h with hcell | ⟨own, v, hown, hv, hsame⟩
    · exact .inl hcell
    · exact .inr ⟨own, v, hown, hv, hfound _ hsame⟩

/-! ## What is found -/

/-- Where all cells on the way agree, the same is found. -/
theorem lookup_agrees (hi : i.Exposed) (hj : j.Exposed) (hrest : j = { i with cells := j.cells })
    (h : ∀ last, ReflTransGen i.Follows name last → i.Agrees j last) :
    (lookup name j).1 = (lookup name i).1 := by
  refine lookup_induct (motive := fun i name => ∀ j : Instance, j.Exposed →
    j = { i with cells := j.cells } → (∀ last, ReflTransGen i.Follows name last → i.Agrees j last) →
    (lookup name j).1 = (lookup name i).1) ?settled ?pending hi name j hj hrest h
  case settled =>
    intro i name hi hsettled j hj hrest h
    rcases h name .refl with hcell | ⟨own, v, hown, _⟩
    · exact lookup_settled_congr hi hj hsettled (by rw [hrest]) (by rw [hrest]) hcell
    · rw [pending?_eq_some_iff.mpr hown] at hsettled
      cases hsettled
  case pending =>
    intro i name d hi hpending ih j hj hrest h
    rcases h name .refl with hcell | ⟨own, v, hown, hv, hfound⟩
    · have hpending' : j.pending? name = some d :=
        pending?_eq_some_iff.mpr (hcell.trans (pending?_eq_some_iff.mp hpending))
      have hfirst : (seek d.head (j.putCell name d .resolving)).1 =
          (seek d.head (i.putCell name d .resolving)).1 := by
        refine seek_congr fun hhead => ?_
        refine ih d.head _ (hj.mark hpending') (by rw [hrest]; rfl) fun last hlast => ?_
        have hreach : TransGen i.Follows name last :=
          .head' ⟨⟨d, hpending, rfl⟩, hhead⟩ (ReflTransGen.mono follows_mark_le _ _ hlast)
        refine (h last hreach.to_reflTransGen).mark fun v hv => ?_
        -- what is remembered was found, so the mark doesn't come in its way
        have haway : ¬ ReflTransGen (i.putCell name d .resolving).Follows last name :=
          fun hback => not_back hi hv hreach (ReflTransGen.mono follows_mark_le _ _ hback)
        exact (ih last i hi rfl fun _ => agrees_unmarked haway).symm.trans hv
      have hdescribe : j.describe = i.describe := describe_congr (by rw [hrest])
      rw [lookup_pending hi hpending, lookup_pending hj hpending']
      dsimp only
      rw [hfirst, hdescribe]
    · rw [lookup_answer hj hv rfl, hfound]
      rfl

/-! ## What is remembered -/

/-- A delegate that was looked up keeps what was found, or waits again. -/
theorem lookup_caches_self (hi : i.Exposed) (h : i.pending? name = some d) :
    i.Agrees (lookup name i).2 name := by
  have hcell := pending?_eq_some_iff.mp h
  rcases d.conclude_cases i.describe (seek d.head (i.putCell name d .resolving)).1 with
    ⟨v, hv⟩ | ⟨e, he⟩
  · right
    rw [lookup_pending hi h]
    dsimp only
    rw [hv]
    exact ⟨d, v, hcell, Entries.get?_insert_self _ _ _, rfl⟩
  · left
    rw [lookup_pending hi h]
    dsimp only
    rw [he, hcell]
    exact Entries.get?_insert_self _ _ _

/-- What other cells got while a delegate was marked is found without that, too. -/
theorem Agrees.unmark (hagrees : (i.putCell name d .resolving).Agrees j other) (hi : i.Exposed)
    (h : i.pending? name = some d) (hne : name ≠ other) (c : Cell) :
    i.Agrees (j.putCell name d c) other := by
  unfold Agrees at hagrees ⊢
  rw [get?_putCell, if_neg hne] at hagrees ⊢
  rcases hagrees with hsame | ⟨own, v, hown, hv, hfound⟩
  · exact .inl hsame
  · refine .inr ⟨own, v, hown, hv, ?_⟩
    -- it was found with the delegate marked, hence does not lead to that
    have haway : ¬ ReflTransGen (i.putCell name d .resolving).Follows other name :=
      fun hback => not_stuck_of_found (hi.mark h) hfound
        ⟨name, hback, .inl (marked_mark_iff.mpr (.inl rfl))⟩
    rw [lookup_agrees (hi.mark h) hi rfl fun _ => agrees_unmarked haway, hfound]

/-- A look-up leaves what it found in the cells. -/
theorem lookup_caches (hi : i.Exposed) (name other : String) :
    i.Agrees (lookup name i).2 other := by
  refine lookup_induct (motive := fun i name => i.Agrees (lookup name i).2 other) ?settled ?pending
    hi name
  case settled =>
    intro i name hi h
    left
    rw [lookup_settled hi h]
  case pending =>
    intro i name d hi h ih
    by_cases hname : name = other
    · subst hname
      exact lookup_caches_self hi h
    · have hfirst : (i.putCell name d .resolving).Agrees
          (seek d.head (i.putCell name d .resolving)).2 other :=
        seek_cases (P := fun r => Agrees _ r.2 other) (.inl rfl) (ih d.head)
      rw [lookup_pending hi h]
      exact hfirst.unmark hi h hname _

/-! ## Looking around -/

/-- What can be done to an instance without giving it anything new. -/
inductive Look where
  | get (path : String)
  | has (path : String)

/-- The instance after a look at it. -/
def look (i : Instance) : Look → Instance
  | .get path => (Instance.get path i).2
  | .has path => (Instance.has path i).2

/-- Nothing changed but that cells were filled with what is found in the first instance. -/
structure Remembers (i j : Instance) : Prop where
  resolves : i.Resolves j
  agrees : ∀ name, i.Agrees j name

instance : Std.Refl Remembers where
  refl i := ⟨Std.Refl.refl i, fun _ => .inl rfl⟩

theorem Remembers.lookup_eq (h : i.Remembers j) (hi : i.Exposed) (name : String) :
    (lookup name j).1 = (lookup name i).1 :=
  lookup_agrees hi (hi.resolves h.resolves) h.resolves.rest fun last _ => h.agrees last

theorem seek_caches (hi : i.Exposed) (name : String) : i.Remembers (seek name i).2 := by
  refine ⟨seek_resolves name i, fun other => ?_⟩
  exact seek_cases (P := fun r => i.Agrees r.2 other) (.inl rfl) (lookup_caches hi name other)

/-- What is found later on is what was found before, so that cells filled later hold it, too. -/
theorem Remembers.step {k : Instance} (h : i.Remembers j) (hi : i.Exposed) (hk : j.Remembers k) :
    i.Remembers k := by
  refine ⟨Trans.trans h.resolves hk.resolves, fun name => ?_⟩
  rcases hk.agrees name with hcell | ⟨d, v, hd, hv, hfound⟩
  · unfold Agrees
    rw [hcell]
    exact h.agrees name
  · rcases h.agrees name with hcell | ⟨_, _, _, hv', _⟩
    · exact .inr ⟨d, v, hcell ▸ hd, hv, (h.lookup_eq hi name).symm.trans hfound⟩
    · cases hd.symm.trans hv'

theorem look_remembers (hi : i.Exposed) (l : Look) : i.Remembers (i.look l) := by
  cases l with
  | get path | has path =>
      show i.Remembers (get path i).2
      rw [get_apply]
      exact seek_caches hi _

theorem Remembers.looks (h : i.Remembers j) (hi : i.Exposed) (looks : List Look) :
    i.Remembers (looks.foldl look j) := by
  induction looks generalizing j with
  | nil => exact h
  | cons l looks ih =>
      have hnext := look_remembers (hi.resolves h.resolves) l
      exact ih (h.step hi hnext)

/-- At any moment in the life of an instance, any looks at it don't change what is at the end of a
path, nor the error that is reported instead. -/
theorem Reachable.looks_unseen (h : Reachable i) (looks : List Look) (path : String) :
    (get path (looks.foldl look i)).1 = (get path i).1 := by
  have hremembers := Remembers.looks (Std.Refl.refl i) h.exposed looks
  exact get_congr (by rw [hremembers.resolves.rest]) (hremembers.lookup_eq h.exposed _)

end Instance

/-! ## A chain of which a part is found -/

namespace Chain

/-- A type with a delegate that leads nowhere, but by way of one that leads somewhere, and with a
ring of two. -/
def compilation : Compilation :=
  .ofOk .builtIn 0
    { name := "Chain"
      blocks := [{
        identity := "Methods"
        entries := [("outer", .str "inner.size"), ("inner", .str "limit"),
          ("left", .str "right"), ("right", .str "left")] }]
      members := [("limit", .int 3)] }
    [] (by decide +kernel)

def start : Instance :=
  Instance.ofType compilation.compiled

def looks : List Look :=
  [.get "outer", .has "right", .get "nowhere"]

/-- The inner delegate is resolved by now, but that can't be seen. -/
theorem looks_unseen_start :
    (start.cell "inner").isResolved = false ∧
    ((looks.foldl look start).cell "inner").isResolved = true ∧
    (Instance.get "outer" (looks.foldl look start)).1 = (Instance.get "outer" start).1 := by
  have hstart : Reachable start := .ofType compilation.compiled
  exact ⟨by decide +kernel, by decide +kernel, hstart.looks_unseen looks "outer"⟩

end Chain

end AppAssembly
