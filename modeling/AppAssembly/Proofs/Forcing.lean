import AppAssembly.Proofs.Paths

/-!
# Values that are forced into a cell

While the path of a delegate is resolved, its owner may ask for the delegate and force values into
its cell, any number of times and in any order (`Delegate.Deals`). Until the cell has to be resolved
itself, what it holds is decided by the last value that was forced (`Deals.cell_eq`). Hence a forced
value always wins over what the path leads to (`Delegate.force_wins`).
-/

namespace AppAssembly

variable {τ : Type}

/-- What an owner does with the cell of a delegate. -/
inductive Use where
  /-- It asks for the delegate and gets this answer. -/
  | got (answer : Except Error Value)
  | forced (v : Value)

/-- The values that are forced, in order. -/
def Use.forcedValues (uses : List Use) : List Value :=
  uses.filterMap fun
    | got _ => none
    | forced v => some v

namespace Delegate

variable {d : Delegate} {owner : Namespace (Cell × τ)} {cell : Cell} {t : τ} {s s' : Cell × τ}
  {uses : List Use} {v : Value}

/-- An owner at work, from one state to another. With its own state it does what it likes, but the
cell is only used in the ways that are listed. -/
inductive Deals (d : Delegate) (owner : Namespace (Cell × τ)) :
    Cell × τ → List Use → Cell × τ → Prop where
  | done (s : Cell × τ) : Deals d owner s [] s
  | work {cell : Cell} {t t' : τ} {uses : List Use} {s' : Cell × τ}
      (rest : Deals d owner (cell, t') uses s') : Deals d owner (cell, t) uses s'
  | get {s s' : Cell × τ} {uses : List Use} (rest : Deals d owner (d.get owner s).2 uses s') :
      Deals d owner s (.got (d.get owner s).1 :: uses) s'
  | force (v : Value) {s s' : Cell × τ} {uses : List Use}
      (rest : Deals d owner (Delegate.force v s).2 uses s') : Deals d owner s (.forced v :: uses) s'

/-- An owner that looks up names in this way. -/
def Owned (d : Delegate) (owner : Namespace (Cell × τ)) : Prop :=
  ∀ name s, ∃ uses, d.Deals owner s uses (owner.lookup name s).2

/-! ## Asking a cell -/

/-- A cell that needn't be resolved answers by itself. -/
theorem get_of_answer {answer : Except Error Value} (h : d.answer? cell = some answer)
    (owner : Namespace (Cell × τ)) (t : τ) : d.get owner (cell, t) = (answer, (cell, t)) := by
  simp only [get, h]

theorem get_resolved (d : Delegate) (owner : Namespace (Cell × τ)) (v : Value) (t : τ) :
    d.get owner (.resolved v, t) = (.ok v, (.resolved v, t)) :=
  get_of_answer rfl owner t

theorem get_unresolved (d : Delegate) (owner : Namespace (Cell × τ)) (t : τ) :
    d.get owner (.unresolved, t) =
      let resolution := owner.resolve d.path (.resolving, t)
      let settled := d.settle resolution.1 resolution.2.1
      (settled.1, (settled.2, resolution.2.2)) := by
  simp only [get, answer?]

theorem exists_answer (d : Delegate) (h : cell ≠ .unresolved) :
    ∃ answer, d.answer? cell = some answer := by
  cases cell with
  | unresolved => exact absurd rfl h
  | resolving | resolved v => exact ⟨_, rfl⟩

/-! ## Dealing with a cell -/

/-- A cell that needn't be resolved holds the value that was forced last. -/
theorem Deals.cell_eq (h : d.Deals owner s uses s') (hs : s.1 ≠ .unresolved) :
    s'.1 = ((Use.forcedValues uses).getLast?.map Cell.resolved).getD s.1 := by
  induction h with
  | done s => rfl
  | work _ ih => exact ih hs
  | @get s s' uses _ ih =>
      obtain ⟨cell, t⟩ := s
      obtain ⟨answer, hanswer⟩ := d.exists_answer hs
      rw [get_of_answer hanswer] at ih
      exact ih hs
  | @force v s s' uses _ ih =>
      rw [ih (by simp [Delegate.force])]
      show _ = ((v :: Use.forcedValues uses).getLast?.map Cell.resolved).getD s.1
      rw [List.getLast?_cons]
      cases (Use.forcedValues uses).getLast? <;> rfl

/-- What resolving a delegate ends with: from the value that was forced last meanwhile and what the
path leads to, the answer and the cell. -/
inductive Ends (d : Delegate) :
    Option Value → Except Error Value → Except Error Value × Cell → Prop where
  | resolved (v : Value) : Ends d none (.ok v) (.ok v, .resolved v)
  | failed (e : Error) :
      Ends d none (.error e)
        (.error (e.intoRequirement .delegateTo d.identity d.origin), .unresolved)
  | forced (v other : Value) : Ends d (some v) (.ok other) (.ok v, .resolved v)
  | forcedFailed (v : Value) (e : Error) :
      Ends d (some v) (.error e)
        (.error (e.intoRequirement .delegateTo d.identity d.origin), .resolved v)

theorem settle_ends (d : Delegate) (last : Option Value) (outcome : Except Error Value) :
    d.Ends last outcome (d.settle outcome ((last.map Cell.resolved).getD .resolving)) := by
  cases last with
  | none =>
      cases outcome with
      | ok v => exact .resolved v
      | error e => exact .failed e
  | some v =>
      cases outcome with
      | ok other => exact .forced v other
      | error e => exact .forcedFailed v e

/-! ## Resolving -/

/-- Looking up the first segment of a path is a part of the owner's work. -/
theorem Owned.lookupHead (h : d.Owned owner) (p : Path) (s : Cell × τ) :
    ∃ uses, d.Deals owner s uses (owner.lookupHead p s).2 := by
  unfold Namespace.lookupHead
  split
  · exact ⟨[], .done s⟩
  · exact h p.head s

/-- A delegate that is resolved ends with the value that was forced last, or else with what the
path leads to. -/
theorem get_ends (hdeals : d.Deals owner (.resolving, t) uses
      (owner.lookupHead (Path.ofText d.path) (.resolving, t)).2) :
    d.Ends (Use.forcedValues uses).getLast? (owner.resolve d.path (.resolving, t)).1
      ((d.get owner (.unresolved, t)).1, (d.get owner (.unresolved, t)).2.1) := by
  have hcell : (owner.resolve d.path (.resolving, t)).2.1 =
      ((Use.forcedValues uses).getLast?.map Cell.resolved).getD .resolving := by
    rw [Namespace.resolve_apply, hdeals.cell_eq (by simp)]
  rw [get_unresolved]
  dsimp only
  rw [hcell, Prod.eta]
  exact d.settle_ends _ _

theorem Ends.ne_resolving {last : Option Value} {outcome : Except Error Value}
    {result : Except Error Value × Cell} (h : d.Ends last outcome result) :
    result.2 ≠ .resolving := by
  cases h <;> simp

/-- What is done from outside leaves no cell that is being resolved. -/
theorem Deals.ne_resolving (howned : d.Owned owner) (h : d.Deals owner s uses s')
    (hs : s.1 ≠ .resolving) : s'.1 ≠ .resolving := by
  induction h with
  | done s => exact hs
  | work _ ih => exact ih hs
  | @get s s' uses _ ih =>
      refine ih ?_
      obtain ⟨cell, t⟩ := s
      cases cell with
      | unresolved =>
          obtain ⟨uses, hdeals⟩ := howned.lookupHead (Path.ofText d.path) (.resolving, t)
          have hsettled := (get_ends hdeals).ne_resolving
          dsimp only at hsettled
          exact hsettled
      | resolving => exact absurd rfl hs
      | resolved v => simp [get_resolved]
  | force v _ ih => exact ih (by simp [Delegate.force])

/-- A cell that has a value gives it to whoever asks, until another one is forced. -/
theorem Deals.answer_eq (h : d.Deals owner s uses s') (hs : s.1 = .resolved v)
    (hnone : Use.forcedValues uses = []) : ∀ answer, .got answer ∈ uses → answer = .ok v := by
  induction h with
  | done s =>
      intro answer h
      cases h
  | work _ ih => exact ih hs hnone
  | @get s s' uses _ ih =>
      obtain ⟨cell, t⟩ := s
      obtain rfl : cell = .resolved v := hs
      rw [get_resolved] at ih ⊢
      intro answer h
      rcases List.mem_cons.mp h with h | h
      · cases h
        rfl
      · exact ih rfl hnone answer h
  | force v _ _ => cases hnone

/-- Whatever an owner does with the cell of a delegate: if the delegate is resolved, meanwhile the
last value that was forced wins over what the path leads to, though it doesn't help if the path
can't be followed. From outside, no cell is seen that is being resolved. A cell that has a value
gives it without any owner, and does so until another value is forced. -/
theorem force_wins (howned : d.Owned owner) :
    (∀ t, (∃ uses, d.Deals owner (.resolving, t) uses
        (owner.lookupHead (Path.ofText d.path) (.resolving, t)).2) ∧
      ∀ uses, d.Deals owner (.resolving, t) uses
          (owner.lookupHead (Path.ofText d.path) (.resolving, t)).2 →
        d.Ends (Use.forcedValues uses).getLast? (owner.resolve d.path (.resolving, t)).1
          ((d.get owner (.unresolved, t)).1, (d.get owner (.unresolved, t)).2.1)) ∧
    (∀ s uses s', s.1 ≠ .resolving → d.Deals owner s uses s' → s'.1 ≠ .resolving) ∧
    ∀ t v, (∀ other : Namespace (Cell × τ),
        d.get other (.resolved v, t) = (.ok v, (.resolved v, t))) ∧
      ∀ uses s', d.Deals owner (.resolved v, t) uses s' → Use.forcedValues uses = [] →
        s'.1 = .resolved v ∧ ∀ answer, .got answer ∈ uses → answer = .ok v := by
  refine ⟨fun t => ⟨howned.lookupHead _ _, fun uses => get_ends⟩, ?_, fun t v =>
    ⟨fun other => d.get_resolved other v t, ?_⟩⟩
  · intro s uses s' hs hdeals
    exact hdeals.ne_resolving howned hs
  · intro uses s' hdeals hnone
    refine ⟨?_, hdeals.answer_eq rfl hnone⟩
    rw [hdeals.cell_eq (by simp), hnone]
    rfl

end Delegate

/-! ## An owner with hooks -/

namespace Owner

variable {d : Delegate}

theorem touch_deals (owner : Namespace (Cell × Owner)) (touches : List Touch) (s : Cell × Owner) :
    ∃ uses, d.Deals owner s uses (touch d touches s).2 := by
  induction touches generalizing s with
  | nil => exact ⟨[], .done s⟩
  | cons touch rest ih =>
      cases touch with
      | force v =>
          obtain ⟨uses, hrest⟩ := ih (Delegate.force v s).2
          exact ⟨.forced v :: uses, .force v hrest⟩
      | read =>
          obtain ⟨cell, t⟩ := s
          cases cell with
          | resolved v =>
              obtain ⟨uses, hrest⟩ := ih (.resolved v, t)
              refine ⟨.got (d.get owner (.resolved v, t)).1 :: uses, .get ?_⟩
              rw [Delegate.get_resolved]
              exact hrest
          | resolving => exact ⟨[.got (d.get owner (.resolving, t)).1], .get (.done _)⟩
          | unresolved => exact ⟨[], .done _⟩
      | fail e => exact ⟨[], .done s⟩

/-- An owner with hooks does what these say, and no more. -/
theorem owned (d : Delegate) : d.Owned (asNamespace d) := by
  intro name s
  have hstate : ((asNamespace d).lookup name s).2 =
      (touch d ((s.2.hooks.get? name).getD []) s).2 := by
    show ((touch d ((s.2.hooks.get? name).getD []) >>= fun _ => pure (s.2.attrs.get? name)) s).2 = _
    rw [Act.bind_apply]
    cases touch d ((s.2.hooks.get? name).getD []) s with
    | mk r t => cases r <;> rfl
  rw [hstate]
  exact touch_deals _ _ s

end Owner

namespace Meddling

def delegate : Delegate :=
  ⟨"alias", "target", ⟨"Owner.Methods", none⟩⟩

/-- Forces two values while its only attribute is looked up, and asks for the delegate in
between. -/
def owner : Owner :=
  ⟨[("target", .int 5)], [("target", [.force (.int 1), .read, .force (.int 7)])]⟩

def root : Namespace (Cell × Owner) :=
  Owner.asNamespace delegate

def uses : List Use :=
  [.forced (.int 1), .got (.ok (.int 1)), .forced (.int 7)]

theorem lookupHead_target :
    root.lookupHead (Path.ofText delegate.path) (.resolving, owner) =
      (.ok (some (.int 5)), (.resolved (.int 7), owner)) := rfl

theorem resolve_target :
    root.resolve delegate.path (.resolving, owner) =
      (.ok (.int 5), (.resolved (.int 7), owner)) := rfl

theorem get_target :
    delegate.get root (.unresolved, owner) = (.ok (.int 7), (.resolved (.int 7), owner)) := rfl

theorem deals : delegate.Deals root (.resolving, owner) uses (.resolved (.int 7), owner) :=
  .force (.int 1) (.get (.force (.int 7) (.done _)))

/-- The value that was forced last is the answer and stays, not the one at the end of the path. -/
theorem force_wins_owner :
    delegate.Ends (some (.int 7)) (.ok (.int 5)) (.ok (.int 7), .resolved (.int 7)) ∧
    (delegate.get root (.unresolved, owner)).2.1 ≠ .resolving ∧
    (∀ answer, .got answer ∈ [Use.got (.ok (.int 7))] → answer = .ok (.int 7)) := by
  have howned : delegate.Owned root := Owner.owned delegate
  obtain ⟨hresolving, houtside, hresolved⟩ := Delegate.force_wins howned
  refine ⟨?_, ?_, ?_⟩
  · have hends := (hresolving owner).2 uses
    rw [lookupHead_target, resolve_target, get_target] at hends
    exact hends deals
  · have hasked : delegate.Deals root (.unresolved, owner)
        [.got (delegate.get root (.unresolved, owner)).1]
        (delegate.get root (.unresolved, owner)).2 := .get (.done _)
    exact houtside _ _ _ (by simp) hasked
  · have hasked : delegate.Deals root (.resolved (.int 7), owner) [.got (.ok (.int 7))]
        (.resolved (.int 7), owner) := .get (.done _)
    exact ((hresolved owner (.int 7)).2 _ _ hasked rfl).2

end Meddling

end AppAssembly
