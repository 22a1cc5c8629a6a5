import AppAssembly.Proofs.Agenda

/-!
# The native code that an errand calls

Creating an object calls factories, a checker is called if its value is one to call, and an
installer if its target can be installed. What an errand calls depends on the moment: on the values
that are found then, and on how far the calls go. Here stands for one errand what it calls, what it
would have called had it not failed, and what is noted of it.
-/

namespace AppAssembly

open Instance

/-! ## What a bootstrap calls -/

/-- Native code that a type has a bootstrap call. -/
inductive Job where
  | build (b : Build)
  | check (checker : Checker)
  | install (installer : Installer)

namespace Job

/-- Does a job: the call, after what is called was looked up. -/
def run (eval : Evaluator) : Job → Act Instance Unit
  | build b => inWorkshop (b.run eval.make)
  | check checker => runChecker eval checker
  | install installer => runInstaller eval installer

/-- How a job is noted when it is done. -/
def deed : Job → Deed
  | build b => .build b.name
  | check checker => .check checker.identity
  | install installer => .install installer.identity

end Job

/-- A value that is called if it stands under the name of a checker. -/
def Value.isChecking : Value → Bool
  | .callable c => c.checker
  | .method _ _ => true
  | _ => false

/-- A value that can be installed. -/
def Value.isInstallable : Value → Bool
  | .object o => Entries.contains o.methods installMethod
  | _ => false

/-- Whether the value that a path leads to at some moment is of a kind. -/
def Instance.finds (i : Instance) (path : String) (kind : Value → Bool) : Bool :=
  match (get path i).1 with
  | .ok v => kind v
  | .error _ => false

/-- What an errand calls if it is run at some moment. The factories are called one after the other,
each in the workshop as the one before has left it. -/
def Errand.jobs (make : Builder) : Errand → Instance → List (Job × Instance)
  | .create item, i =>
      (Act.course (Build.run make) item.builds i.workshop).map fun (b, w) =>
        (.build b, { i with workshop := w })
  | .check checker, i =>
      if i.finds checker.identity Value.isChecking then [(.check checker, i)] else []
  | .install installer, i =>
      if i.finds installer.path Value.isInstallable then [(.install installer, i)] else []
  | _, _ => []

/-! ## What is looked up and called -/

section

variable {eval : Evaluator} {i j : Instance} {path : String} {kind : Value → Bool}

theorem Instance.finds_of_ok {v : Value} (h : get path i = (.ok v, j)) :
    i.finds path kind = kind v := by
  unfold finds
  rw [h]

theorem Instance.finds_of_error {e : Error} (h : get path i = (.error e, j)) :
    i.finds path kind = false := by
  unfold finds
  rw [h]

theorem Instance.finds_iff : i.finds path kind = true ↔
    ∃ v, (get path i).1 = .ok v ∧ kind v = true := by
  unfold finds
  cases (get path i).1 with
  | ok v => simp
  | error e => simp

/-- A checker is called if its value is one to call. -/
theorem runChecker_eq (eval : Evaluator) (checker : Checker) :
    runChecker eval checker = (get checker.identity >>= fun v =>
      if v.isChecking then do
        note (.check checker.identity)
        let _ ← v.invoke eval []
      else pure ()) := by
  unfold runChecker
  congr 1
  funext v
  cases v with
  | callable c => rfl
  | method receiver name => rfl
  | _ => rfl

theorem runChecker_called {checker : Checker} {v : Value}
    (h : get checker.identity i = (.ok v, j)) (hv : v.isChecking = true) :
    runChecker eval checker i =
      (note (.check checker.identity) >>= fun _ => v.invoke eval [] >>= fun _ => pure ()) j := by
  rw [runChecker_eq, Act.bind_ok h, if_pos hv]

theorem runChecker_skipped {checker : Checker} {v : Value}
    (h : get checker.identity i = (.ok v, j)) (hv : v.isChecking = false) :
    runChecker eval checker i = (.ok (), j) := by
  rw [runChecker_eq, Act.bind_ok h]
  simp [hv]

theorem runChecker_unfound {checker : Checker} {e : Error}
    (h : get checker.identity i = (.error e, j)) : runChecker eval checker i = (.error e, j) := by
  rw [runChecker_eq, Act.bind_error h]

/-- What can be installed is an object that has the method for it. -/
theorem runInstaller_called {installer : Installer} {v : Value}
    (h : get installer.path i = (.ok v, j)) (hv : v.isInstallable = true) :
    ∃ o : Obj, v = .object o ∧ runInstaller eval installer i =
      (note (.install installer.identity) >>= fun _ =>
        o.call eval installMethod [] >>= fun _ => pure ()) j := by
  unfold Value.isInstallable at hv
  cases v with
  | object o =>
      refine ⟨o, rfl, ?_⟩
      unfold runInstaller
      rw [Act.bind_ok (Act.mapError_ok h)]
      simp only [hv, if_true]
  | _ => cases hv

/-- A target that can't be installed is a failure, and nothing is called. -/
theorem runInstaller_missing {installer : Installer}
    (h : i.finds installer.path Value.isInstallable = false) :
    ∃ e, runInstaller eval installer i = (.error e, (get installer.path i).2) := by
  unfold runInstaller
  rcases hget : get installer.path i with ⟨e | v, j⟩
  · exact ⟨_, Act.bind_error (Act.mapError_error hget)⟩
  · rw [finds_of_ok hget] at h
    rw [Act.bind_ok (Act.mapError_ok hget)]
    unfold Value.isInstallable at h
    cases v with
    | object o =>
        simp only [h, Bool.false_eq_true, if_false]
        exact ⟨_, rfl⟩
    | _ => exact ⟨_, rfl⟩

end

/-! ## What is due -/

/-- What an errand calls if it succeeds, and its checker is not among those to skip. -/
def Errand.due (skipped : List Checker) : Errand → List Job
  | .create item => item.builds.map .build
  | .check checker => if checker ∈ skipped then [] else [.check checker]
  | .install installer => [.install installer]
  | _ => []

/-! ## What comes of one errand -/

/-- An object is created as the calls go that it takes, and then placed. -/
theorem Instance.create_cases (make : Builder) (item : Deferred) (i : Instance) :
    (∃ e w, Act.forEach item.builds (Build.run make) i.workshop = (.error e, w) ∧
      create make item i = (.error e, { i with workshop := w })) ∨
    ∃ v w made, Act.forEach item.builds (Build.run make) i.workshop = (.ok (), w) ∧
      item.materialize make i.workshop = (.ok v, { w with made := made }) ∧
      create make item i =
        (.ok (), { i with workshop := { w with made := made } }.place item.identity v) := by
  rcases item.materialize_cases make i.workshop with
    ⟨e, w, hbuilds, hmade⟩ | ⟨v, w, made, hbuilds, hmade⟩
  · have hwork : inWorkshop (item.materialize make) i = (.error e, { i with workshop := w }) := by
      rw [inWorkshop, hmade]
    exact .inl ⟨e, w, hbuilds, Act.bind_error hwork⟩
  · have hwork : inWorkshop (item.materialize make) i =
        (.ok v, { i with workshop := { w with made := made } }) := by
      rw [inWorkshop, hmade]
    exact .inr ⟨v, w, made, hbuilds, hmade, Act.bind_ok hwork⟩

theorem Instance.create_fst (make : Builder) (item : Deferred) (i : Instance) :
    (create make item i).1 = (Act.forEach item.builds (Build.run make) i.workshop).1 := by
  rcases i.create_cases make item with
    ⟨e, w, hbuilds, hcreated⟩ | ⟨v, w, made, hbuilds, _, hcreated⟩
  · rw [hbuilds, hcreated]
  · rw [hbuilds, hcreated]

namespace Errand

variable {eval : Evaluator} {errand : Errand} {i : Instance}

/-- What is called is what is due, up to where it fails. -/
theorem jobs_due {skipped : List Checker}
    (hskipped : ∀ checker, errand = .check checker →
      (checker ∈ skipped ↔ i.finds checker.identity (fun v => !v.isChecking) = true)) :
    (errand.jobs eval.make i).map Prod.fst <+: errand.due skipped ∧
      ((errand.perform eval i).1 = .ok () →
        (errand.jobs eval.make i).map Prod.fst = errand.due skipped) := by
  cases errand with
  | create item =>
      have hjobs : (Errand.jobs eval.make (.create item) i).map Prod.fst =
          ((Act.course (Build.run eval.make) item.builds i.workshop).map Prod.fst).map .build := by
        simp [jobs]
      rw [hjobs]
      refine ⟨(Act.course_begins _ _ _).map _, fun hok => ?_⟩
      have hbuilds : (Act.forEach item.builds (Build.run eval.make) i.workshop).1 = .ok () := by
        rw [← create_fst, ← during_fst .createThings]
        exact hok
      rw [Act.course_of_ok hbuilds]
      rfl
  | check checker =>
      have hskipped := hskipped checker rfl
      have hfst : (perform eval (.check checker) i).1 = (runChecker eval checker i).1 :=
        during_fst _ _ _
      rw [hfst]
      rcases hget : get checker.identity i with ⟨e | v, j⟩
      · rw [finds_of_error hget] at hskipped
        simp [jobs, finds_of_error hget, runChecker_unfound hget]
      · rw [finds_of_ok hget] at hskipped
        cases hv : v.isChecking with
        | true =>
            have hdue : checker ∉ skipped := by simp [hskipped, hv]
            simp [jobs, due, finds_of_ok hget, hv, hdue]
        | false =>
            have hdue : checker ∈ skipped := by simp [hskipped, hv]
            simp [jobs, due, finds_of_ok hget, hv, hdue]
  | install installer =>
      have hfst : (perform eval (.install installer) i).1 = (runInstaller eval installer i).1 :=
        during_fst _ _ _
      rw [hfst]
      cases hfinds : i.finds installer.path Value.isInstallable with
      | true => simp [jobs, due, hfinds]
      | false =>
          obtain ⟨e, hmissing⟩ : ∃ e, runInstaller eval installer i = (.error e, _) :=
            runInstaller_missing hfinds
          simp [jobs, hfinds, hmissing]
  | enter _ | resolve _ _ | approve _ | finish _ => simp [jobs, due]

/-- A call that fails is the last one of its errand, which fails as well. -/
theorem jobs_stops : Act.Stops (fun m e => (m.1.run eval m.2).1 = .error e)
    (errand.jobs eval.make i) (errand.perform eval i).1 := by
  cases errand with
  | create item =>
      have hfst : (perform eval (.create item) i).1 =
          (Act.forEach item.builds (Build.run eval.make) i.workshop).1 :=
        (during_fst _ _ _).trans (create_fst eval.make item i)
      rw [hfst]
      exact Act.stops_map (Act.stops_course (Build.run eval.make) item.builds i.workshop)
  | check checker =>
      have hfst : (perform eval (.check checker) i).1 = (runChecker eval checker i).1 :=
        during_fst _ _ _
      rw [hfst, jobs]
      split
      · exact Act.stops_singleton fun e he => he
      · exact Act.stops_nil
  | install installer =>
      have hfst : (perform eval (.install installer) i).1 = (runInstaller eval installer i).1 :=
        during_fst _ _ _
      rw [hfst, jobs]
      split
      · exact Act.stops_singleton fun e he => he
      · exact Act.stops_nil
  | enter _ | resolve _ _ | approve _ | finish _ => exact Act.stops_nil

end Errand

/-! ## Where calls come from -/

theorem Errand.mem_jobs {make : Builder} {errand : Errand} {i : Instance} {m : Job × Instance}
    (h : m ∈ errand.jobs make i) :
    (∃ item b, errand = .create item ∧ m.1 = .build b) ∨
    (∃ checker, errand = .check checker ∧ m.1 = .check checker) ∨
    ∃ installer, errand = .install installer ∧ m.1 = .install installer := by
  cases errand with
  | create item =>
      obtain ⟨⟨b, w⟩, _, rfl⟩ := List.mem_map.mp h
      exact .inl ⟨item, b, rfl, rfl⟩
  | check checker =>
      rw [jobs] at h
      split at h
      · rw [List.mem_singleton.mp h]
        exact .inr (.inl ⟨checker, rfl, rfl⟩)
      · cases h
  | install installer =>
      rw [jobs] at h
      split at h
      · rw [List.mem_singleton.mp h]
        exact .inr (.inr ⟨installer, rfl, rfl⟩)
      · cases h
  | enter _ | resolve _ _ | approve _ | finish _ => cases h

theorem checkPath_ok {requirement : Requirement} {path : String} {i : Instance}
    (h : (checkPath requirement path i).1 = .ok ()) : ∃ v, (get path i).1 = .ok v := by
  unfold checkPath at h
  rcases hget : get path i with ⟨e | v, j⟩
  · rw [Act.bind_error (Act.mapError_error hget)] at h
    cases h
  · exact ⟨v, rfl⟩

theorem checkMethod_ok {method : Method} {i : Instance} (h : (checkMethod method i).1 = .ok ()) :
    ∃ v, (get method.identity i).1 = .ok v ∧ v.isCallable = true := by
  unfold checkMethod at h
  rcases hget : get method.identity i with ⟨e | v, j⟩
  · rw [Act.bind_error hget] at h
    cases h
  · refine ⟨v, rfl, ?_⟩
    rw [Act.bind_ok hget, Act.bind_apply] at h
    by_contra hv
    simp [hv] at h

theorem runInstaller_ok {eval : Evaluator} {installer : Installer} {i : Instance}
    (h : (runInstaller eval installer i).1 = .ok ()) :
    ∃ o : Obj, (get installer.path i).1 = .ok (.object o) ∧
      Entries.contains o.methods installMethod = true := by
  have hfinds : i.finds installer.path Value.isInstallable = true := by
    by_contra hmissing
    obtain ⟨e, he⟩ : ∃ e, runInstaller eval installer i = (.error e, _) :=
      runInstaller_missing (eq_false_of_ne_true hmissing)
    rw [he] at h
    cases h
  obtain ⟨v, hv, hkind⟩ := finds_iff.mp hfinds
  unfold Value.isInstallable at hkind
  cases v with
  | object o => exact ⟨o, hv, hkind⟩
  | _ => cases hkind

/-! ## What is noted -/

/-- The deeds in which something was called. -/
def Deed.isWork : Deed → Bool
  | .enter _ | .finish _ | .abort _ => false
  | _ => true

namespace Instance

/-- What was called in all steps so far, as it was noted. -/
def works (i : Instance) : List Deed :=
  i.workshop.deeds.filter Deed.isWork

theorem Stays.works_eq {i j : Instance} (h : i.Stays (fun _ => False) j) : j.works = i.works := by
  obtain ⟨work, hdeeds, hwork⟩ := h.work
  have hnone : work = [] := by
    cases work with
    | nil => rfl
    | cons d work => exact (hwork d List.mem_cons_self).elim
  unfold works
  rw [hdeeds, hnone, List.append_nil]

theorem during_works (step : Step) (act : Act Instance Unit) (i : Instance) :
    (during step act i).2.works = (act i).2.works := by
  rcases hrun : act i with ⟨e | _, j⟩
  · rw [during_error hrun]
    simp [works, Workshop.note, Deed.isWork]
  · rw [during_ok hrun]

/-- What is noted once the things are there, if native code calls nothing on behalf of a step. -/
theorem noted_works {deed : Deed} (hdeed : deed.isWork = true) {act : Act Instance Value}
    (hact : act.Keeps (Settled fun _ => False)) {i : Instance} (hi : i.materialized = true) :
    ((note deed >>= fun _ => act >>= fun _ => pure ()) i).2.works = i.works ++ [deed] := by
  let j : Instance := { i with workshop := i.workshop.note deed }
  have hnoted : note deed i = (.ok (), j) := rfl
  have hdone : (act >>= fun _ => (pure () : Act Instance Unit)).Keeps (Settled fun _ => False) :=
    hact.bind fun _ => Act.keeps_pure ()
  have hj : j.works = i.works ++ [deed] := by
    simp [j, works, Workshop.note, hdeed]
  rw [Act.bind_ok hnoted, ← hj]
  exact (hdone j hi).works_eq

end Instance

theorem Build.run_deeds (make : Builder) (b : Build) (w : Workshop) :
    (b.run make w).2.deeds = w.deeds ++ [.build b.name] := by
  have hconstruct := b.factory.construct_deeds b.kwargs make (w.note (.build b.name))
  unfold Build.run
  rw [Act.bind_apply, Factory.buildFor]
  rcases hrun : b.factory.construct b.kwargs make (w.note (.build b.name)) with ⟨_ | v, x⟩
  · rw [hrun] at hconstruct
    exact hconstruct
  · rw [hrun] at hconstruct
    exact hconstruct

theorem Instance.create_works (make : Builder) (item : Deferred) (i : Instance) :
    (create make item i).2.works = i.works ++
      (Act.course (Build.run make) item.builds i.workshop).map fun m => .build m.1.name := by
  have hlog : (Act.forEach item.builds (Build.run make) i.workshop).2.deeds = i.workshop.deeds ++
      (Act.course (Build.run make) item.builds i.workshop).flatMap fun m => [.build m.1.name] :=
    Act.log_course (I := fun _ => True) (fun _ _ _ _ => trivial)
      (fun b _ w _ => b.run_deeds make w) trivial
  rw [← List.map_eq_flatMap] at hlog
  have hdeeds : (create make item i).2.workshop.deeds =
      (Act.forEach item.builds (Build.run make) i.workshop).2.deeds := by
    rcases i.create_cases make item with
      ⟨e, w, hbuilds, hcreated⟩ | ⟨v, w, made, hbuilds, _, hcreated⟩
    · rw [hbuilds, hcreated]
    · rw [hbuilds, hcreated]
      rfl
  rw [works, hdeeds, hlog, List.filter_append, works, List.append_cancel_left_eq,
    List.filter_eq_self]
  intro d hd
  obtain ⟨m, _, rfl⟩ := List.mem_map.mp hd
  rfl

namespace Instance

variable {i : Instance}

theorem get_works (path : String) (i : Instance) : (get path i).2.works = i.works :=
  (get_stays path i).works_eq

theorem get_materialized (path : String) (i : Instance) :
    (get path i).2.materialized = i.materialized :=
  (get_stays (P := fun _ => False) path i).materialized

theorem checkPath_works (requirement : Requirement) (path : String) (i : Instance) :
    (checkPath requirement path i).2.works = i.works := by
  have hstays : (checkPath requirement path).Keeps (Stays fun _ => False) :=
    ((get_stays path).mapError _).bind fun _ => Act.keeps_pure ()
  exact (hstays i).works_eq

theorem checkMethod_works (method : Method) (i : Instance) :
    (checkMethod method i).2.works = i.works := by
  have hstays : (checkMethod method).Keeps (Stays fun _ => False) := by
    refine (get_stays _).bind fun v => Act.keeps_state.bind fun i => ?_
    split
    · exact Act.keeps_pure ()
    · exact Act.keeps_fail _
  exact (hstays i).works_eq

section

variable {eval : Evaluator} (heval : eval.Bounded) (hi : i.materialized = true)
include heval hi

theorem runChecker_works (checker : Checker) :
    (runChecker eval checker i).2.works = i.works ++
      if i.finds checker.identity Value.isChecking then [.check checker.identity] else [] := by
  have hlook := get_works checker.identity i
  have hkept := (get_materialized checker.identity i).trans hi
  rcases hget : get checker.identity i with ⟨e | v, j⟩
  · rw [hget] at hlook
    simp [runChecker_unfound hget, finds_of_error hget, hlook]
  · rw [hget] at hlook hkept
    cases hv : v.isChecking with
    | true =>
        rw [runChecker_called hget hv, noted_works rfl (heval.calls.invoke v []) hkept, hlook]
        simp [finds_of_ok hget, hv]
    | false => simp [runChecker_skipped hget hv, finds_of_ok hget, hv, hlook]

theorem runInstaller_works (installer : Installer) :
    (runInstaller eval installer i).2.works = i.works ++
      if i.finds installer.path Value.isInstallable then [.install installer.identity] else [] := by
  have hlook := get_works installer.path i
  have hkept := (get_materialized installer.path i).trans hi
  cases hfinds : i.finds installer.path Value.isInstallable with
  | true =>
      rcases hget : get installer.path i with ⟨e | v, j⟩
      · simp [finds_of_error hget] at hfinds
      · rw [hget] at hlook hkept
        rw [finds_of_ok hget] at hfinds
        obtain ⟨o, _, hcalled⟩ := runInstaller_called hget hfinds
        rw [hcalled, noted_works rfl (heval.calls.objCall o _ []) hkept, hlook]
        simp
  | false =>
      obtain ⟨e, hmissing⟩ : ∃ e, runInstaller eval installer i = (.error e, _) :=
        runInstaller_missing hfinds
      simp [hmissing, hlook]

end

end Instance

/-- What native code does once the things are there is not noted, so an errand notes what it calls
and no more. -/
theorem Errand.perform_works {eval : Evaluator} (heval : eval.Bounded) (errand : Errand)
    {i : Instance} (hi : errand.step ≠ .createThings → i.materialized = true) :
    (errand.perform eval i).2.works =
      i.works ++ (errand.jobs eval.make i).map fun m => m.1.deed := by
  cases errand with
  | enter step =>
      show (Instance.enter step i).2.works = _
      unfold Instance.enter
      cases i.misstep? step with
      | some misstep => simp [jobs]
      | none => simp [jobs, works, begun, Workshop.note, Deed.isWork]
  | finish step =>
      show (note (.finish step) i).2.works = _
      simp [jobs, works, note, inWorkshop, Workshop.note, Deed.isWork]
  | create item =>
      show (during .createThings (Instance.create eval.make item) i).2.works = _
      rw [during_works, create_works]
      simp [jobs, Job.deed]
  | resolve requirement path =>
      show (during .sanityCheck (checkPath requirement path) i).2.works = _
      rw [during_works, checkPath_works]
      simp [jobs]
  | approve method =>
      show (during .sanityCheck (checkMethod method) i).2.works = _
      rw [during_works, checkMethod_works]
      simp [jobs]
  | check checker =>
      show (during .sanityCheck (runChecker eval checker) i).2.works = _
      rw [during_works, runChecker_works heval (hi (by simp [step]))]
      cases hfinds : i.finds checker.identity Value.isChecking <;> simp [jobs, hfinds, Job.deed]
  | install installer =>
      show (during .install (runInstaller eval installer) i).2.works = _
      rw [during_works, runInstaller_works heval (hi (by simp [step]))]
      cases hfinds : i.finds installer.path Value.isInstallable <;> simp [jobs, hfinds, Job.deed]

/-- The errands that follow the beginning of a step note what they call, if the things are there
once the step has begun. -/
theorem Instance.step_works {eval : Evaluator} (heval : eval.Bounded) {step : Step} {i : Instance}
    (hcreated : i.misstep? step = none → (i.begun step).materialized = true)
    (errands : List Errand) :
    (Act.forEach (.enter step :: errands) (Errand.perform eval) i).2.works =
      i.works ++ (Act.course (Errand.perform eval) (.enter step :: errands) i).flatMap fun m =>
        (m.1.jobs eval.make m.2).map fun n => n.1.deed := by
  cases hmisstep : i.misstep? step with
  | some misstep =>
      have hrefused : Errand.perform eval (.enter step) i = _ := enter_refused hmisstep
      rw [Act.forEach_cons_error hrefused, Act.course_cons_error hrefused]
      simp [Errand.jobs]
  | none =>
      have hbegun : Errand.perform eval (.enter step) i = (.ok (), i.begun step) := by
        show Instance.enter step i = _
        unfold Instance.enter
        rw [hmisstep]
      have hsame : (i.begun step).works = i.works := by
        simp [works, begun, Workshop.note, Deed.isWork]
      rw [Act.forEach_cons_ok hbegun, Act.course_cons_ok hbegun, List.flatMap_cons]
      show _ = i.works ++ ([] ++ _)
      rw [List.nil_append, ← hsame]
      exact Act.log_course (I := fun k => k.materialized = true)
        (fun errand _ k hk => (errand.perform_lasts heval.free k).materialized hk)
        (fun errand _ k hk => errand.perform_works heval fun _ => hk) (hcreated hmisstep)

end AppAssembly
