import AppAssembly.Proofs.Hierarchy
import AppAssembly.Proofs.Steps

/-!
# The order of work

Whatever a step of the life cycle does, the step before it is over by then. As a step is marked as
begun before its work is done, over does not mean that it succeeded: when the steps are called one
by one, a step may follow one that has failed. As long as the life cycle is driven by `bootstrap`
and `execute` alone, the step before has done all its work.

All that a step can do is said once (`undertake_cases`). The invariant is that whatever step an
instance is ready for, the step before that is over (`Sound`).
-/

namespace AppAssembly

open Instance

variable {byHand : Bool} {α : Type}

/-- The step that has to be called before. -/
def Step.previous? : Step → Option Step
  | .createThings => none
  | .sanityCheck => some .createThings
  | .install => some .sanityCheck
  | .run => some .install

/-! ## Legal orders of deeds -/

/-- A step is over: it has done all its work or, where that counts, it has given up. -/
def Over (byHand : Bool) (step : Step) (deeds : List Deed) : Prop :=
  .finish step ∈ deeds ∨ byHand = true ∧ .abort step ∈ deeds

/-- Before every deed, the step before its own one was over. -/
def Legal (byHand : Bool) (deeds : List Deed) : Prop :=
  ∀ before d after, deeds = before ++ d :: after →
    ∀ step, d.step.previous? = some step → Over byHand step before

theorem Over.append {step : Step} {deeds : List Deed} (h : Over byHand step deeds)
    (further : List Deed) : Over byHand step (deeds ++ further) := by
  rcases h with h | ⟨hby, h⟩
  · exact .inl (List.mem_append_left further h)
  · exact .inr ⟨hby, List.mem_append_left further h⟩

theorem Legal.nil : Legal byHand [] := by
  intro before d after h
  simp at h

theorem Legal.append {deeds further : List Deed} (h : Legal byHand deeds)
    (hfurther : ∀ d ∈ further, ∀ step, d.step.previous? = some step → Over byHand step deeds) :
    Legal byHand (deeds ++ further) := by
  intro before d after hsplit step hstep
  rcases List.append_eq_append_iff.mp hsplit with ⟨rest, hbefore, hrest⟩ | ⟨rest, hdeeds, hrest⟩
  · -- the deed is one of the further ones
    have hd : d ∈ further := by
      rw [hrest]
      simp
    rw [hbefore]
    exact (hfurther d hd step hstep).append rest
  · cases rest with
    | nil =>
        -- the deed is the first of the further ones
        have hd : d ∈ further := by
          rw [List.nil_append] at hrest
          rw [← hrest]
          simp
        rw [List.append_nil] at hdeeds
        rw [← hdeeds]
        exact hfurther d hd step hstep
    | cons e rest =>
        obtain ⟨rfl, _⟩ := List.cons.inj hrest
        exact h before d rest hdeeds step hstep

/-! ## One step -/

/-- What an instance is like between two steps. -/
structure Sound (byHand : Bool) (i : Instance) : Prop where
  legal : Legal byHand i.workshop.deeds
  created : i.phase ≠ .created → i.materialized = true
  /-- Whatever step may be begun, the one before it is over. -/
  ready : byHand = true → ∀ step previous, i.misstep? step = none →
    step.previous? = some previous → Over byHand previous i.workshop.deeds

/-- What holds between the states before and after whatever keeps instances sound. -/
def KeepsSound (byHand : Bool) (i j : Instance) : Prop :=
  Sound byHand i → Sound byHand j

instance : Std.Refl (KeepsSound byHand) where
  refl _ h := h

instance : Trans (KeepsSound byHand) (KeepsSound byHand) (KeepsSound byHand) where
  trans h h' hi := h' (h hi)

/-- Where no deed is added, nothing changes. -/
theorem Instance.Stays.sound {i j : Instance} (h : i.Stays (fun _ => False) j) :
    KeepsSound byHand i j := by
  obtain ⟨hphase, hmaterialized, work, hdeeds, hwork⟩ := h
  have hnil : work = [] := List.eq_nil_iff_forall_not_mem.mpr hwork
  rw [hnil, List.append_nil] at hdeeds
  rintro ⟨hlegal, hcreated, hready⟩
  refine ⟨hdeeds ▸ hlegal, ?_, ?_⟩
  · rw [hphase, hmaterialized]
    exact hcreated
  · intro hby step previous hmisstep
    rw [hdeeds]
    refine hready hby step previous ?_
    unfold misstep? at hmisstep ⊢
    rw [← hphase, ← hmaterialized]
    exact hmisstep

/-- After a step, only the next one may be begun. -/
theorem previous?_of_reaches {i : Instance} {step next previous : Step}
    (hphase : i.phase = step.reaches) (hmaterialized : i.materialized = true)
    (hmisstep : i.misstep? next = none) (hprevious : next.previous? = some previous) :
    previous = step := by
  unfold misstep? at hmisstep
  cases next <;> cases step <;>
    simp_all [Step.previous?, Step.needs, Step.reaches]

/-- The step lemma. If the step before is over whenever this one may begin, nothing happens out of
order, and if this step succeeds it has done all its work. -/
theorem Sound.undertake {step : Step} {work : Act Instance α}
    (hwork : work.Keeps (Settled (Deed.WorkOf step))) {i : Instance} (h : Sound byHand i)
    (hprevious : i.misstep? step = none → ∀ previous, step.previous? = some previous →
      Over byHand previous i.workshop.deeds) :
    Sound byHand (undertake step work i).2 ∧
      ((undertake step work i).1.isOk →
        .finish step ∈ (undertake step work i).2.workshop.deeds) := by
  rcases undertake_cases hwork h.created with
    ⟨misstep, _, hrun⟩ | ⟨hmisstep, r, j, done, hrun, hphase, hmaterialized, hdeeds, hdone⟩
  · rw [hrun]
    exact ⟨h, fun hok => by cases hok⟩
  rw [hrun]
  -- whatever is noted from the beginning to the end belongs to this step
  have hstep : ∀ d ∈ Deed.enter step :: done ++ [ending step r], d.step = step := by
    intro d hd
    simp only [List.cons_append, List.mem_cons, List.mem_append, List.not_mem_nil,
      or_false] at hd
    rcases hd with rfl | hd | rfl
    · rfl
    · exact (hdone d hd).step_eq
    · cases r <;> rfl
  have hend : ending step r ∈ j.workshop.deeds := by
    rw [hdeeds]
    simp
  refine ⟨⟨?_, fun _ => hmaterialized, ?_⟩, ?_⟩
  · show Legal byHand j.workshop.deeds
    rw [hdeeds]
    refine h.legal.append fun d hd previous hd' => ?_
    rw [hstep d hd] at hd'
    exact hprevious hmisstep previous hd'
  · intro hby next previous hnext hnext'
    obtain rfl := previous?_of_reaches hphase hmaterialized hnext hnext'
    cases r with
    | ok a => exact .inl hend
    | error e => exact .inr ⟨hby, hend⟩
  · intro hok
    cases r with
    | ok a => exact hend
    | error e => cases hok

/-- Called by hand, a step is only begun if the one before is over. -/
theorem undertake_byHand {step : Step} {work : Act Instance α} (hby : byHand = true)
    (hwork : work.Keeps (Settled (Deed.WorkOf step))) :
    (undertake step work).Keeps (KeepsSound byHand) := by
  intro i h
  exact (h.undertake hwork fun hmisstep previous => h.ready hby step previous hmisstep).1

/-! ## Several steps -/

/-- From a sound instance where `pre` holds, an act leaves a sound one, and if it succeeds, `post`
holds there. -/
def Drives (byHand : Bool) (pre post : Instance → Prop) (act : Act Instance α) : Prop :=
  ∀ i, Sound byHand i → pre i → Sound byHand (act i).2 ∧ ((act i).1.isOk → post (act i).2)

/-- A step is over in the life of an instance. -/
def Done (byHand : Bool) (step : Step) (i : Instance) : Prop :=
  Over byHand step i.workshop.deeds

theorem Drives.bind {β : Type} {pre mid post : Instance → Prop} {act : Act Instance α}
    {next : α → Act Instance β} (h : Drives byHand pre mid act)
    (hnext : ∀ a, Drives byHand mid post (next a)) : Drives byHand pre post (act >>= next) := by
  intro i hi hpre
  have hfirst := h i hi hpre
  rw [Act.bind_apply]
  cases hact : act i with
  | mk r j =>
      rw [hact] at hfirst
      cases r with
      | error e => exact ⟨hfirst.1, fun hok => by cases hok⟩
      | ok a => exact hnext a j hfirst.1 (hfirst.2 rfl)

/-- In a row of steps, a step follows the success of the one before. -/
theorem undertake_drives {step : Step} {work : Act Instance α} {pre : Instance → Prop}
    (hwork : work.Keeps (Settled (Deed.WorkOf step)))
    (hpre : ∀ i previous, pre i → step.previous? = some previous → Done byHand previous i) :
    Drives byHand pre (Done byHand step) (undertake step work) := by
  intro i hi hi'
  obtain ⟨hsound, hdone⟩ :=
    hi.undertake hwork fun _ previous hprevious => hpre i previous hi' hprevious
  exact ⟨hsound, fun hok => .inl (hdone hok)⟩

section

variable {eval : Evaluator} (heval : eval.Bounded)
include heval

theorem bootstrap_drives :
    Drives byHand (fun _ => True) (Done byHand .install) (Instance.bootstrap eval) := by
  unfold Instance.bootstrap Instance.createThings Instance.sanityCheck Instance.install
  refine (undertake_drives (createAll_settled eval.make) ?_).bind fun _ => ?_
  · intro i previous _ hprevious
    cases hprevious
  refine (undertake_drives (checkAll_settled heval) ?_).bind fun _ => ?_
  · intro i previous hdone hprevious
    cases hprevious
    exact hdone
  refine undertake_drives (installAll_settled heval) ?_
  intro i previous hdone hprevious
  cases hprevious
  exact hdone

theorem execute_drives :
    Drives byHand (fun _ => True) (Done byHand .run) (Instance.execute eval) := by
  unfold Instance.execute Instance.run
  refine (bootstrap_drives heval).bind fun _ => undertake_drives (callRunner_settled heval) ?_
  intro i previous hdone hprevious
  cases hprevious
  exact hdone

/-! ## All clients -/

/-- Every client keeps instances sound, if native code does. -/
theorem Client.sound (hnative : ∀ script args, (eval.run script args).Keeps (KeepsSound byHand))
    {single : Bool} (hsingle : single = true → byHand = true) {act : Act Instance α}
    (h : Client single eval act) : act.Keeps (KeepsSound byHand) := by
  refine h.keeps (.of_stays Stays.sound hnative)
    (fun name v => (set_stays name v).mono Stays.sound)
    (fun line => (write_stays line).mono Stays.sound) ?_ ?_ fun hone => ?_
  · intro i hi
    exact (bootstrap_drives heval i hi trivial).1
  · intro i hi
    exact (execute_drives heval i hi trivial).1
  · have hby := hsingle hone
    exact ⟨undertake_byHand hby (createAll_settled eval.make),
      undertake_byHand hby (checkAll_settled heval),
      undertake_byHand hby (installAll_settled heval),
      undertake_byHand hby (callRunner_settled heval)⟩

end

/-- Native code keeps instances sound. The induction is on its depth. -/
theorem Evaluator.Bounded.sound {eval : Evaluator} (h : eval.Bounded) (script : Script)
    (args : List Value) : (eval.run script args).Keeps (KeepsSound byHand) := by
  induction h generalizing script args with
  | lowest => exact Act.keeps_fail _
  | above below client ih =>
      exact (client script args).sound below ih (fun h => by cases h)

/-- A new instance is only ready for the first step. -/
theorem sound_ofType (t : CompiledType) (runner : String) (made : Nat) (journal : List String) :
    Sound byHand (Instance.ofType t runner ⟨⟨made, journal⟩, []⟩) := by
  refine ⟨.nil, fun hphase => absurd rfl hphase, ?_⟩
  intro _ step previous hmisstep hprevious
  cases step with
  | createThings => cases hprevious
  | sanityCheck => cases hmisstep
  | install => cases hmisstep
  | run => cases hmisstep

/-- Every step does its work in order. However an instance is used from its making on, with native
code that may use it in turn, whatever a step has done was done after the step before had been
called and was over: that step had done all its work or, if the single steps are called by hand,
had given up. -/
theorem Client.work_in_order {eval : Evaluator} (heval : eval.Bounded) {act : Act Instance α}
    (h : Client byHand eval act) (t : CompiledType) (runner : String) (made : Nat)
    (journal : List String) {before after : List Deed} {d : Deed}
    (hdeeds : (act (Instance.ofType t runner ⟨⟨made, journal⟩, []⟩)).2.workshop.deeds =
      before ++ d :: after)
    {step : Step} (hstep : d.step.previous? = some step) :
    .finish step ∈ before ∨ byHand = true ∧ .abort step ∈ before :=
  have hsound := h.sound heval heval.sound id _ (sound_ofType t runner made journal)
  hsound.legal before d after hdeeds step hstep

/-! ## Steps after failures -/

namespace Brittle

/-- A factory that makes nothing. -/
def broken : Factory :=
  ⟨.given 0, "Broken", [], [], none, .fail "broken"⟩

/-- A callable that needs a path which leads nowhere. -/
def needy : Callable :=
  ⟨.given 1, "needy", ["nowhere"], true, none, .give .null⟩

/-- An object that can't be installed. -/
def tool : Obj :=
  ⟨.given 2, "Tool", [], [("install", .raise (.other "failed"))]⟩

def runner : Callable :=
  ⟨.given 3, "runner", [], false, none, .give .null⟩

/-- A type of which nothing works but the runner. -/
def compilation : Compilation :=
  .ofOk .builtIn 0
    { name := "Brittle"
      blocks := [
        { identity := "Part", mainType := some broken },
        { identity := "Install", entries := [("tool", .str "tool")] }]
      members := [
        ("needy", .callable needy), ("tool", .object tool), ("runner", .callable runner)] }
    [] (by decide +kernel)

/-- Calls one step after the other, whatever comes of each. -/
def drive : Act Instance Value := do
  let _ ← (createThings native.make).attempt
  let _ ← (sanityCheck native).attempt
  let _ ← (install native).attempt
  run native

theorem drive_client : Client true native drive :=
  .bind (.attempt (.createThings rfl)) fun _ => .bind (.attempt (.sanityCheck rfl)) fun _ =>
    .bind (.attempt (.install rfl)) fun _ => .run rfl

theorem drive_deeds :
    (drive (Instance.ofType compilation.compiled "runner" ⟨⟨0, []⟩, []⟩)).2.workshop.deeds =
      [.enter .createThings, .build "Part", .abort .createThings, .enter .sanityCheck,
        .abort .sanityCheck, .enter .install] ++ .install "tool" ::
      [.abort .install, .enter .run, .run, .finish .run] := by
  decide +kernel

theorem work_in_order_drive :
    .finish .sanityCheck ∈ [.enter .createThings, .build "Part", .abort .createThings,
        .enter .sanityCheck, .abort .sanityCheck, Deed.enter .install] ∨
      true = true ∧ .abort .sanityCheck ∈ [.enter .createThings, .build "Part",
        .abort .createThings, .enter .sanityCheck, .abort .sanityCheck, Deed.enter .install] :=
  drive_client.work_in_order native_bounded compilation.compiled "runner" 0 [] drive_deeds rfl

/-- That a step was called does not mean that the step before has done its work. -/
theorem step_follows_failure :
    ¬ ∀ eval : Evaluator, eval.Bounded → ∀ act : Act Instance Value, Client true eval act →
      ∀ t runner made journal before d after,
        (act (Instance.ofType t runner ⟨⟨made, journal⟩, []⟩)).2.workshop.deeds =
          before ++ d :: after →
        ∀ step, d.step.previous? = some step → .finish step ∈ before := by
  intro hclaim
  -- the tool was installed, though the sanity check before that gave up
  have hdone := hclaim native native_bounded drive drive_client compilation.compiled "runner" 0 []
    _ _ _ drive_deeds .sanityCheck rfl
  simp at hdone

end Brittle

end AppAssembly
