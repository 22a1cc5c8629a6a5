import AppAssembly.Proofs.Hierarchy
import AppAssembly.Proofs.Moves
import Mathlib.Data.List.Infix

/-!
# The order of the phases

An instance goes through its phases one at a time and begins every step at most once, in the order
of the steps. Two things decide about a step, the phase and whether things were created; the
invariant is that both are given by the steps that were begun so far (`InOrder`), so a step is
admitted exactly if it is the next one (`misstep?_eq_none_iff`). This is kept by every move, hence
it does not matter who calls a step, and whether another one is in progress.
-/

namespace AppAssembly

open Instance

variable {α : Type} {i j : Instance} {step : Step}

/-! ## Steps and phases -/

/-- The steps in the order in which they have to be called. -/
def Step.inOrder : List Step :=
  [.createThings, .sanityCheck, .install, .run]

/-- One of the steps, under the name it has in the list of steps. -/
def Step.call (eval : Evaluator) : Step → Act Instance Value
  | .createThings => do
      Instance.createThings eval.make
      return .null
  | .sanityCheck => do
      Instance.sanityCheck eval
      return .null
  | .install => do
      Instance.install eval
      return .null
  | .run => Instance.run eval

namespace Phase

def next? : Phase → Option Phase
  | .created => some .validated
  | .validated => some .installed
  | .installed => some .running
  | .running => none

/-- The phase after some steps were begun. -/
def after (steps : List Step) : Phase :=
  (steps.getLast?.map Step.reaches).getD .created

theorem after_append (steps : List Step) (step : Step) :
    after (steps ++ [step]) = step.reaches := by
  simp [after]

end Phase

theorem Deed.WorkOf.entered?_eq_none {d : Deed} (h : d.WorkOf step) : d.entered? = none := by
  cases h <;> rfl

/-- A step leaves the phase as it is or leads to the next one. -/
theorem Step.reaches_cases (step : Step) :
    step.reaches = step.needs ∨ step.needs.next? = some step.reaches := by
  cases step <;> decide

namespace Instance

/-- The steps that were begun, first one first. -/
def entered (i : Instance) : List Step :=
  i.workshop.deeds.filterMap Deed.entered?

/-- The step is the next one. -/
def Due (i : Instance) (step : Step) : Prop :=
  i.entered ++ [step] <+: Step.inOrder

/-- The phase stays, or moves on by one. -/
def Advances (i j : Instance) : Prop :=
  j.phase = i.phase ∨ i.phase.next? = some j.phase

/-- Steps were begun in order, and the instance is as far in its life as these steps lead. -/
structure InOrder (i : Instance) : Prop where
  steps : i.entered <+: Step.inOrder
  phase : i.phase = Phase.after i.entered
  materialized : i.materialized = !i.entered.isEmpty

/-! ## Which steps are admitted -/

/-- A step is admitted exactly if it is the next one. -/
theorem misstep?_eq_none_iff (h : i.InOrder) : i.misstep? step = none ↔ i.Due step := by
  obtain ⟨hsteps, hphase, hmaterialized⟩ := h
  unfold misstep? Due
  rw [hphase, hmaterialized]
  -- only five lists of steps are in order
  have hcases : i.entered ∈ Step.inOrder.inits := (List.mem_inits _ _).mpr hsteps
  generalize i.entered = steps at hcases
  cases step with
  | createThings | sanityCheck | install | run =>
      revert steps
      decide

theorem exists_misstep (h : i.InOrder) (hdue : ¬ i.Due step) :
    ∃ misstep, i.misstep? step = some misstep := by
  cases hmisstep : i.misstep? step with
  | some misstep => exact ⟨misstep, rfl⟩
  | none => exact absurd ((misstep?_eq_none_iff h).mp hmisstep) hdue

/-- A step that is admitted finds the phase that it needs. -/
theorem phase_eq_needs (h : i.misstep? step = none) : i.phase = step.needs := by
  by_contra hphase
  unfold misstep? at h
  cases step with
  | createThings | install | run => simp [hphase] at h
  | sanityCheck => cases hm : i.materialized <;> simp [hphase, hm] at h

/-! ## What a move does to the phase -/

theorem Stays.entered_eq (h : i.Stays (fun d => d.entered? = none) j) : j.entered = i.entered := by
  obtain ⟨_, _, work, hdeeds, hwork⟩ := h
  unfold entered
  rw [hdeeds, List.filterMap_append, List.filterMap_eq_nil_iff.mpr hwork, List.append_nil]

/-- What leaves the life of an instance alone keeps the order. -/
theorem InOrder.stays (hi : i.InOrder) (h : i.Stays (fun d => d.entered? = none) j) :
    j.InOrder ∧ i.Advances j := by
  have hentered := h.entered_eq
  refine ⟨⟨?_, ?_, ?_⟩, .inl h.phase⟩
  · rw [hentered]
    exact hi.steps
  · rw [hentered, h.phase]
    exact hi.phase
  · rw [hentered, h.materialized]
    exact hi.materialized

/-- A step that was due and has begun leads on by one phase at most. -/
theorem InOrder.begins (hi : i.InOrder) (hadmitted : i.misstep? step = none)
    (hphase : j.phase = step.reaches) (hmaterialized : j.materialized = true)
    (hentered : j.entered = i.entered ++ [step]) : j.InOrder ∧ i.Advances j := by
  refine ⟨⟨?_, ?_, ?_⟩, ?_⟩
  · rw [hentered]
    exact (misstep?_eq_none_iff hi).mp hadmitted
  · rw [hphase, hentered, Phase.after_append]
  · rw [hmaterialized, hentered]
    simp
  · unfold Advances
    rw [hphase, phase_eq_needs hadmitted]
    exact step.reaches_cases

theorem InOrder.created (hi : i.InOrder) (hphase : i.phase ≠ .created) : i.materialized = true := by
  rw [hi.materialized]
  cases hentered : i.entered with
  | nil =>
      rw [hi.phase, hentered] at hphase
      exact absurd rfl hphase
  | cons step steps => rfl

/-- The step lemma: every move keeps the order and leads on by one phase at most. -/
theorem Move.inOrder (h : Move i j) (hi : i.InOrder) : j.InOrder ∧ i.Advances j := by
  cases h with
  | get path => exact hi.stays (get_stays path i)
  | set name v => exact hi.stays (set_stays name v i)
  | work w hw => exact hi.stays ⟨rfl, rfl, hw⟩
  | enter hlater hadmitted =>
      have hmaterialized := begun_materialized hi.created hadmitted
      refine hi.begins hadmitted rfl hmaterialized ?_
      simp [entered, begun, Workshop.note, Deed.entered?]
  | createThings make =>
      rcases undertake_cases (createAll_settled make) hi.created with
        ⟨misstep, _, hrun⟩ | ⟨hadmitted, r, k, done, hrun, hphase, hmaterialized, hdeeds, hdone⟩
      · rw [Instance.createThings, hrun]
        exact ⟨hi, .inl rfl⟩
      · rw [Instance.createThings, hrun]
        refine hi.begins hadmitted hphase hmaterialized ?_
        have hending : (ending Step.createThings r).entered? = none := by
          cases r <;> rfl
        have hwork : (done ++ [ending Step.createThings r]).filterMap Deed.entered? = [] := by
          rw [List.filterMap_eq_nil_iff]
          intro d hd
          rcases List.mem_append.mp hd with hd | hd
          · exact (hdone d hd).entered?_eq_none
          · rw [List.mem_singleton.mp hd]
            exact hending
        unfold entered
        rw [hdeeds, List.filterMap_append, List.cons_append, List.filterMap_cons, hwork]
        rfl

/-! ## What a run does to the phase -/

theorem Reachable.inOrder (h : Reachable i) : i.InOrder := by
  induction h with
  | new t runner made journal => exact ⟨List.nil_prefix, rfl, rfl⟩
  | move _ hmove ih => exact (hmove.inOrder ih).1

/-- The run lemma: every move of a run leads on by one phase at most. -/
theorem Becomes.advances (h : i.Becomes j) (hi : i.InOrder) :
    Relation.ReflTransGen (fun k l => Move k l ∧ k.Advances l) i j ∧ j.InOrder := by
  induction h with
  | refl => exact ⟨.refl, hi⟩
  | tail _ hmove ih =>
      obtain ⟨hrun, hk⟩ := ih
      obtain ⟨hl, hadvances⟩ := hmove.inOrder hk
      exact ⟨hrun.tail ⟨hmove, hadvances⟩, hl⟩

end Instance

theorem Step.call_refused {eval : Evaluator} {misstep : Misstep}
    (h : i.misstep? step = some misstep) :
    step.call eval i = (.error (.lifecycle i.phase misstep), i) := by
  cases step with
  | createThings | sanityCheck | install => exact Act.bind_error (undertake_refused h)
  | run => exact undertake_refused h

/-- The life of an instance is in order. However it is used at any moment of its life, also by
native code while a step is in progress: the phase only moves to the next one, every step is begun
at most once, in order, and a step that is not the next one is refused and leaves everything as it
was. So is every attempt to bootstrap or execute once the first step was begun. -/
theorem Client.life_in_order {eval : Evaluator} (heval : eval.Free) {act : Act Instance α}
    (h : Client true eval act) (hi : Reachable i) :
    Relation.ReflTransGen (fun k l => Move k l ∧ k.Advances l) i (act i).2 ∧
    (act i).2.entered <+: Step.inOrder ∧
    (act i).2.phase = Phase.after (act i).2.entered ∧
    (∀ step, ¬ (act i).2.Due step → ∃ misstep,
      step.call eval (act i).2 = (.error (.lifecycle (act i).2.phase misstep), (act i).2)) ∧
    ((act i).2.entered ≠ [] → ∃ misstep,
      Instance.bootstrap eval (act i).2 =
        (.error (.lifecycle (act i).2.phase misstep), (act i).2) ∧
      Instance.execute eval (act i).2 =
        (.error (.lifecycle (act i).2.phase misstep), (act i).2)) := by
  obtain ⟨hrun, horder⟩ := (h.becomes heval i).advances hi.inOrder
  refine ⟨hrun, horder.steps, horder.phase, fun step hdue => ?_, fun hentered => ?_⟩
  · obtain ⟨misstep, hmisstep⟩ := exists_misstep horder hdue
    exact ⟨misstep, Step.call_refused hmisstep⟩
  · have hmaterialized : (act i).2.materialized = true := by
      rw [horder.materialized]
      cases hsteps : (act i).2.entered with
      | nil => exact absurd hsteps hentered
      | cons step steps => rfl
    obtain ⟨misstep, hmisstep⟩ := misstep?_createThings hmaterialized
    exact ⟨misstep, bootstrap_refused hmisstep, execute_refused hmisstep⟩

/-! ## A bootstrap within a bootstrap -/

namespace Eager

/-- A checker that bootstraps the instance it is called on. -/
def again : Callable :=
  ⟨.given 0, "again", [], true, none, .bootstrap⟩

def runner : Callable :=
  ⟨.given 1, "runner", [], false, none, .phase⟩

/-- A type that can't wait to be bootstrapped. -/
def compilation : Compilation :=
  .ofOk .builtIn 0
    { name := "Eager"
      blocks := [{ identity := "Checkers", entries := [("again", .callable again)] }]
      members := [("runner", .callable runner)] }
    [] (by decide +kernel)

def start : Instance :=
  Instance.ofType compilation.compiled

/-- Bootstraps, goes on after the failure of that, and tries everything once more. -/
def drive : Act Instance Value := do
  let _ ← (bootstrap native).attempt
  install native
  let v ← run native
  let _ ← (execute native).attempt
  return v

theorem drive_client : Client true native drive :=
  .bind (.attempt .bootstrap) fun _ => .bind (.install rfl) fun _ => .bind (.run rfl) fun v =>
    .bind (.attempt .execute) fun _ => .pure v

/-- The checker's bootstrap was refused, and by now all steps are. -/
theorem life_in_order_drive :
    (drive start).2.entered = Step.inOrder ∧ (drive start).2.phase = .running ∧
    ∀ step : Step, ∃ misstep, step.call native (drive start).2 =
      (.error (.lifecycle (drive start).2.phase misstep), (drive start).2) := by
  have hstart : Reachable start := .ofType compilation.compiled
  obtain ⟨_, _, hphase, hrefused, _⟩ := drive_client.life_in_order native_free hstart
  have hentered : (drive start).2.entered = Step.inOrder := by
    decide +kernel
  refine ⟨hentered, ?_, fun step => hrefused step fun hdue => ?_⟩
  · rw [hphase, hentered]
    rfl
  · have hlength := hdue.length_le
    rw [hentered, List.length_append] at hlength
    exact absurd hlength (Nat.not_succ_le_self _)

end Eager

end AppAssembly
