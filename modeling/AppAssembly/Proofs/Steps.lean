import AppAssembly.Proofs.Clients
import AppAssembly.Proofs.Effects

/-!
# What a step does

A step is refused without a trace, or it begins, does work of its own kind, and ends
(`undertake_cases`). Native code might drive the life cycle itself, but no longer once things are
created, since all it could do then is refused (`Evaluator.Bounded.settled`). So the work of a step
is nothing but its own.
-/

namespace AppAssembly

open Instance

variable {P : Deed → Prop} {α : Type}

/-! ## Refusing and beginning -/

theorem misstep?_createThings {i : Instance} (h : i.materialized = true) :
    ∃ misstep, i.misstep? .createThings = some misstep := by
  unfold misstep?
  by_cases hphase : i.phase ≠ Step.createThings.needs
  · simp [hphase]
  · simp [hphase, h]

theorem enter_refused {step : Step} {i : Instance} {misstep : Misstep}
    (h : i.misstep? step = some misstep) :
    enter step i = (.error (.lifecycle i.phase misstep), i) := by
  unfold enter
  rw [h]

/-- A step is refused without a trace. -/
theorem undertake_refused {step : Step} {work : Act Instance α} {i : Instance} {misstep : Misstep}
    (h : i.misstep? step = some misstep) :
    undertake step work i = (.error (.lifecycle i.phase misstep), i) := by
  unfold undertake
  rw [Act.bind_apply, enter_refused h]

/-- A step that succeeds was not refused. -/
theorem misstep?_of_ok {step : Step} {work : Act Instance α} {i : Instance} {a : α}
    (h : (undertake step work i).1 = .ok a) : i.misstep? step = none := by
  cases hmisstep : i.misstep? step with
  | none => rfl
  | some misstep =>
      rw [undertake_refused hmisstep] at h
      cases h

/-- Whatever step has begun, the things are created or being created. -/
theorem begun_materialized {i : Instance} (hcreated : i.phase ≠ .created → i.materialized = true)
    {step : Step} (h : i.misstep? step = none) : (i.begun step).materialized = true := by
  unfold misstep? at h
  unfold begun
  cases step with
  | createThings => simp
  | sanityCheck =>
      cases hm : i.materialized with
      | true => rfl
      | false => simp [hm] at h
  | install | run =>
      have hphase : i.phase ≠ .created := by
        intro hphase
        simp [hphase, Step.needs] at h
      simp [hcreated hphase]

/-- A step that is not refused does its work and then notes how it ended. -/
theorem undertake_begun {step : Step} {work : Act Instance α} {i : Instance}
    (h : i.misstep? step = none) {r : Except Error α} {j : Instance}
    (hwork : work (i.begun step) = (r, j)) :
    undertake step work i = (r, { j with workshop := j.workshop.note (ending step r) }) := by
  have henter : enter step i = (.ok (), i.begun step) := by
    unfold enter
    rw [h]
  unfold undertake
  rw [Act.bind_apply, henter]
  -- what comes of the work is noted and then passed on
  show (work.attempt >>= _) (i.begun step) = _
  rw [Act.bind_apply, Act.attempt_apply, hwork]
  rfl

/-- All that a step can do, if its work is of its own kind. -/
theorem undertake_cases {step : Step} {work : Act Instance α}
    (hwork : work.Keeps (Settled (Deed.WorkOf step))) {i : Instance}
    (hcreated : i.phase ≠ .created → i.materialized = true) :
    (∃ misstep, i.misstep? step = some misstep ∧
      undertake step work i = (.error (.lifecycle i.phase misstep), i)) ∨
    (i.misstep? step = none ∧ ∃ r j done, undertake step work i = (r, j) ∧
      j.phase = step.reaches ∧ j.materialized = true ∧
      j.workshop.deeds = i.workshop.deeds ++ (.enter step :: done ++ [ending step r]) ∧
      ∀ d ∈ done, d.WorkOf step) := by
  cases hmisstep : i.misstep? step with
  | some misstep => exact .inl ⟨misstep, rfl, undertake_refused hmisstep⟩
  | none =>
      have hbegun := begun_materialized hcreated hmisstep
      obtain ⟨hphase, hmaterialized, done, hdeeds, hdone⟩ := hwork (i.begun step) hbegun
      refine .inr ⟨rfl, _, _, done, undertake_begun hmisstep rfl, hphase, ?_, ?_, hdone⟩
      · exact hmaterialized.trans hbegun
      · show (work (i.begun step)).2.workshop.deeds ++ _ = _
        rw [hdeeds]
        simp [begun, Workshop.note]

/-! ## Native code -/

/-- A client does nothing but what an instance offers, so it keeps a relation if all of that
does. -/
theorem Client.keeps {R : Instance → Instance → Prop} [Std.Refl R] [Trans R R R] {byHand : Bool}
    {eval : Evaluator} (hcalls : CallsKeep eval R)
    (hset : ∀ name v, (Instance.set name v).Keeps R)
    (hwrite : ∀ line, (Instance.write line).Keeps R)
    (hbootstrap : (Instance.bootstrap eval).Keeps R) (hexecute : (Instance.execute eval).Keeps R)
    (hsteps : byHand = true → (Instance.createThings eval.make).Keeps R ∧
      (Instance.sanityCheck eval).Keeps R ∧ (Instance.install eval).Keeps R ∧
      (Instance.run eval).Keeps R)
    {act : Act Instance α} (h : Client byHand eval act) : act.Keeps R := by
  induction h with
  | pure a => exact Act.keeps_pure a
  | fail e => exact Act.keeps_fail e
  | bind _ _ ihFirst ihFurther => exact ihFirst.bind ihFurther
  | attempt _ ih => exact ih.attempt
  | look => exact Act.keeps_state
  | get path => exact hcalls.get path
  | set name v => exact hset name v
  | write line => exact hwrite line
  | invoke v args => exact hcalls.invoke v args
  | bootstrap => exact hbootstrap
  | execute => exact hexecute
  | createThings hby => exact (hsteps hby).1
  | sanityCheck hby => exact (hsteps hby).2.1
  | install hby => exact (hsteps hby).2.2.1
  | run hby => exact (hsteps hby).2.2.2

/-- Looking things up and calling them keeps whatever holds as long as the life of an instance is
left alone, if native code does. -/
theorem CallsKeep.of_stays {R : Instance → Instance → Prop} {eval : Evaluator}
    (hstays : ∀ {i j : Instance}, i.Stays (fun _ => False) j → R i j)
    (heval : ∀ script args, (eval.run script args).Keeps R) : CallsKeep eval R where
  get path := (get_stays path).mono hstays
  build f := (f.call_stays eval.make).mono hstays
  native := heval

/-- Where creating is refused, no other step is tried. -/
theorem bootstrap_refused {eval : Evaluator} {i : Instance} {misstep : Misstep}
    (h : i.misstep? .createThings = some misstep) :
    Instance.bootstrap eval i = (.error (.lifecycle i.phase misstep), i) :=
  Act.bind_error (undertake_refused h)

theorem execute_refused {eval : Evaluator} {i : Instance} {misstep : Misstep}
    (h : i.misstep? .createThings = some misstep) :
    Instance.execute eval i = (.error (.lifecycle i.phase misstep), i) :=
  Act.bind_error (bootstrap_refused h)

/-- Who has its things created can't be bootstrapped. -/
theorem bootstrap_settled (eval : Evaluator) : (Instance.bootstrap eval).Keeps (Settled P) := by
  intro i hi
  obtain ⟨misstep, hmisstep⟩ := misstep?_createThings hi
  rw [bootstrap_refused hmisstep]
  exact Std.Refl.refl i

theorem execute_settled (eval : Evaluator) : (Instance.execute eval).Keeps (Settled P) := by
  intro i hi
  obtain ⟨misstep, hmisstep⟩ := misstep?_createThings hi
  rw [execute_refused hmisstep]
  exact Std.Refl.refl i

/-- Who may not call single steps leaves the life of an instance alone, if the code it sets to work
does. -/
theorem Client.settled {eval : Evaluator}
    (heval : ∀ script args, (eval.run script args).Keeps (Settled P)) {act : Act Instance α}
    (h : Client false eval act) : act.Keeps (Settled P) := by
  refine h.keeps (.of_stays (fun h => h.of_none.settled) heval)
    (fun name v => (set_stays name v).mono Stays.settled)
    (fun line => (write_stays line).mono Stays.settled)
    (bootstrap_settled eval) (execute_settled eval) fun hby => ?_
  cases hby

/-- Native code leaves the life of an instance alone once its things are created. -/
theorem Evaluator.Bounded.settled {eval : Evaluator} (h : eval.Bounded) (script : Script)
    (args : List Value) : (eval.run script args).Keeps (Settled P) := by
  induction h generalizing script args with
  | lowest => exact Act.keeps_fail _
  | above _ client ih => exact (client script args).settled ih

/-! ## The work of each step -/

theorem create_settled (make : Builder) (item : Deferred) :
    (create make item).Keeps (Settled (Deed.WorkOf .createThings)) := by
  refine Act.Keeps.bind ((inWorkshop_stays (item.materialize_adds make)).mono Stays.settled)
    fun v => ?_
  intro i _
  exact ⟨rfl, rfl, .of_eq rfl⟩

theorem createAll_settled (make : Builder) :
    (createAll make).Keeps (Settled (Deed.WorkOf .createThings)) :=
  Act.keeps_state.bind fun _ => Act.keeps_forEach fun item _ => create_settled make item

section

variable {eval : Evaluator} (heval : eval.Bounded)
include heval

theorem Evaluator.Bounded.calls : CallsKeep eval (Settled P) :=
  .of_stays (fun h => h.of_none.settled) heval.settled

theorem checkAll_settled : (checkAll eval).Keeps (Settled (Deed.WorkOf .sanityCheck)) :=
  heval.calls.checkAll fun identity => note_settled (.check identity)

theorem installAll_settled : (installAll eval).Keeps (Settled (Deed.WorkOf .install)) :=
  heval.calls.installAll fun identity => note_settled (.install identity)

theorem callRunner_settled : (callRunner eval).Keeps (Settled (Deed.WorkOf .run)) :=
  heval.calls.callRunner (note_settled .run)

end

end AppAssembly
