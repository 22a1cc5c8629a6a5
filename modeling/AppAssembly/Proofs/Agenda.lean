import AppAssembly.Proofs.Courses
import AppAssembly.Proofs.Moments

/-!
# The agenda of a bootstrap

A type lays down what a bootstrap of its instances does: it is one list of errands, from beginning
to create things to having installed everything. A bootstrap runs them in order up to the first
failure (`bootstrap_eq`), so its course tells what it has begun and at which moment. Between two
errands, and within those that call native code, the instance may change; its type does not.
-/

namespace AppAssembly

open Instance

/-! ## What building is made of -/

/-- A call of a factory. -/
structure Build where
  /-- What is built, as a failure names it. -/
  name : String
  factory : Factory
  kwargs : Kwargs
  origin : Origin

def Build.run (make : Builder) (b : Build) : Act Workshop Unit := do
  let _ ← b.factory.buildFor make b.name b.kwargs b.origin

/-- The call that an entry of a group takes, if it is a component. -/
def ComponentGroup.build? (g : ComponentGroup) : String × ComponentSource → Option Build
  | (name, .factory f) => some ⟨g.identity ++ "." ++ name, f, [], g.origin⟩
  | (_, .value _) => none

/-- The calls of factories that an object takes, in order. -/
def Deferred.builds : Deferred → List Build
  | components group => group.entries.filterMap group.build?
  | custom object => [⟨object.block, object.factory, object.kwargs, object.origin⟩]

theorem Build.run_ok {make : Builder} {b : Build} {w x : Workshop} {v : Value}
    (h : b.factory.buildFor make b.name b.kwargs b.origin w = (.ok v, x)) :
    b.run make w = (.ok (), x) := by
  unfold Build.run
  rw [Act.bind_apply, h]
  rfl

theorem Build.run_error {make : Builder} {b : Build} {w x : Workshop} {e : Error}
    (h : b.factory.buildFor make b.name b.kwargs b.origin w = (.error e, x)) :
    b.run make w = (.error e, x) :=
  Act.bind_error h

/-- The entries of a group are built as their calls go. -/
theorem ComponentGroup.entries_cases (g : ComponentGroup) (make : Builder)
    (entries : List (String × ComponentSource)) (w : Workshop) :
    (∃ e x, Act.forEach (entries.filterMap g.build?) (Build.run make) w = (.error e, x) ∧
      Act.mapList entries (g.buildEntry make) w = (.error e, x)) ∨
    ∃ attrs x, Act.forEach (entries.filterMap g.build?) (Build.run make) w = (.ok (), x) ∧
      Act.mapList entries (g.buildEntry make) w = (.ok attrs, x) := by
  induction entries generalizing w with
  | nil => exact .inr ⟨[], w, rfl, rfl⟩
  | cons entry entries ih =>
      have hcons : ∀ {attr x}, g.buildEntry make entry w = (.ok attr, x) →
          Act.mapList (entry :: entries) (g.buildEntry make) w =
            (Act.mapList entries (g.buildEntry make) >>= fun attrs => pure (attr :: attrs)) x := by
        intro attr x hentry
        rw [Act.mapList, Act.bind_apply, hentry]
      obtain ⟨name, source⟩ := entry
      cases source with
      | value v =>
          rw [List.filterMap_cons_none rfl, hcons rfl, Act.bind_apply]
          rcases ih w with ⟨e, x, hbuilds, hentries⟩ | ⟨attrs, x, hbuilds, hentries⟩
          · exact .inl ⟨e, x, hbuilds, by rw [hentries]⟩
          · exact .inr ⟨(name, v) :: attrs, x, hbuilds, by rw [hentries]; rfl⟩
      | factory f =>
          have hbuild : g.build? (name, .factory f) =
              some ⟨g.identity ++ "." ++ name, f, [], g.origin⟩ := rfl
          rw [List.filterMap_cons_some hbuild]
          rcases hcall : f.buildFor make (g.identity ++ "." ++ name) [] g.origin w with ⟨_ | v, x⟩
          · refine .inl ⟨_, x, Act.forEach_cons_error (Build.run_error hcall), ?_⟩
            exact Act.bind_error (Act.bind_error hcall)
          · have hentry : g.buildEntry make (name, .factory f) w = (.ok (name, v), x) := by
              rw [buildEntry, Act.bind_apply, hcall]
              rfl
            rw [Act.forEach_cons_ok (Build.run_ok hcall), hcons hentry, Act.bind_apply]
            rcases ih x with ⟨e, y, hbuilds, hentries⟩ | ⟨attrs, y, hbuilds, hentries⟩
            · exact .inl ⟨e, y, hbuilds, by rw [hentries]⟩
            · exact .inr ⟨(name, v) :: attrs, y, hbuilds, by rw [hentries]; rfl⟩

/-- An object is built as the calls go that it takes. What is left to do then makes no more than a
tag. -/
theorem Deferred.materialize_cases (item : Deferred) (make : Builder) (w : Workshop) :
    (∃ e x, Act.forEach item.builds (Build.run make) w = (.error e, x) ∧
      item.materialize make w = (.error e, x)) ∨
    ∃ v x made, Act.forEach item.builds (Build.run make) w = (.ok (), x) ∧
      item.materialize make w = (.ok v, { x with made := made }) := by
  cases item with
  | components group =>
      rcases group.entries_cases make group.entries w with
        ⟨e, x, hbuilds, hentries⟩ | ⟨attrs, x, hbuilds, hentries⟩
      · exact .inl ⟨e, x, hbuilds, Act.bind_error hentries⟩
      · refine .inr ⟨.object ⟨.built x.made, group.identity, attrs, []⟩, x, x.made + 1, hbuilds, ?_⟩
        show group.materialize make w = _
        rw [ComponentGroup.materialize, Act.bind_apply, hentries]
        rfl
  | custom object =>
      have hone : ∀ b : Build, Act.forEach [b] (Build.run make) w = b.run make w := by
        intro b
        rcases hrun : b.run make w with ⟨_ | _, x⟩
        · exact Act.forEach_cons_error hrun
        · exact Act.forEach_cons_ok hrun
      rcases hcall : object.materialize make w with ⟨_ | v, x⟩
      · exact .inl ⟨_, x, (hone _).trans (Build.run_error hcall), hcall⟩
      · exact .inr ⟨v, x, x.made, (hone _).trans (Build.run_ok hcall), hcall⟩

/-! ## What lasts -/

namespace Instance

/-- What an instance keeps all its life. -/
structure Lasts (i j : Instance) : Prop where
  compiled : j.compiled = i.compiled
  runner : j.runner = i.runner
  materialized : i.materialized = true → j.materialized = true

instance : Std.Refl Lasts where
  refl _ := ⟨rfl, rfl, id⟩

instance : Trans Lasts Lasts Lasts where
  trans h h' := ⟨h'.compiled.trans h.compiled, h'.runner.trans h.runner,
    fun hi => h'.materialized (h.materialized hi)⟩

theorem Resolves.lasts {i j : Instance} (h : i.Resolves j) : i.Lasts j := by
  rw [h.rest]
  exact ⟨rfl, rfl, id⟩

theorem create_lasts (make : Builder) (item : Deferred) : (create make item).Keeps Lasts :=
  Act.Keeps.bind (fun _ => ⟨rfl, rfl, id⟩) fun _ _ => ⟨rfl, rfl, id⟩

theorem createAll_lasts (make : Builder) : (createAll make).Keeps Lasts :=
  Act.keeps_state.bind fun _ => Act.keeps_forEach fun item _ => create_lasts make item

theorem createThings_lasts (make : Builder) : (createThings make).Keeps Lasts := by
  intro i
  cases hmisstep : i.misstep? .createThings with
  | some misstep =>
      rw [createThings, undertake_refused hmisstep]
      exact Std.Refl.refl i
  | none =>
      have hbegun : i.Lasts (i.begun .createThings) := ⟨rfl, rfl, fun h => by simp [begun, h]⟩
      have hdone := createAll_lasts make (i.begun .createThings)
      rcases hrun : createAll make (i.begun .createThings) with ⟨r, j⟩
      rw [hrun] at hdone
      rw [createThings, undertake_begun hmisstep hrun]
      have hnoted : j.Lasts { j with workshop := j.workshop.note (ending .createThings r) } :=
        ⟨rfl, rfl, id⟩
      exact Trans.trans (Trans.trans hbegun hdone) hnoted

theorem Move.lasts {i j : Instance} (h : Move i j) : i.Lasts j := by
  cases h with
  | get path => exact (get_resolves path i).lasts
  | set name v =>
      rcases set_cases name v i with ⟨d, c, _, hset⟩ | ⟨_, _, hset⟩ | ⟨e, hset⟩
      · rw [hset]
        exact ⟨rfl, rfl, id⟩
      · rw [hset]
        exact ⟨rfl, rfl, id⟩
      · rw [hset]
        exact Std.Refl.refl i
  | createThings make => exact createThings_lasts make i
  | enter hlater hadmitted => exact ⟨rfl, rfl, fun h => by simp [begun, h]⟩
  | work w hw => exact ⟨rfl, rfl, id⟩

theorem Becomes.lasts {i j : Instance} (h : i.Becomes j) : i.Lasts j := by
  induction h with
  | refl => exact Std.Refl.refl i
  | tail _ hmove ih => exact Trans.trans ih hmove.lasts

end Instance

/-! ## Errands -/

/-- What is done at one go in a bootstrap. -/
inductive Errand where
  | enter (step : Step)
  | create (item : Deferred)
  /-- One path of a requirement has to resolve. -/
  | resolve (requirement : Requirement) (path : String)
  | check (checker : Checker)
  /-- An attribute has to be callable. -/
  | approve (method : Method)
  | install (installer : Installer)
  | finish (step : Step)

namespace CompiledType

/-- The errands of creating things. -/
def creating (t : CompiledType) : List Errand :=
  .enter .createThings :: (t.deferred.map .create ++ [.finish .createThings])

/-- The errands of the sanity check. -/
def validating (t : CompiledType) : List Errand :=
  .enter .sanityCheck ::
    ((t.requirements.flatMap fun requirement => requirement.paths.map (.resolve requirement)) ++
      t.checkers.map .check ++ t.methods.map .approve ++ [.finish .sanityCheck])

/-- The errands of installing. -/
def installing (t : CompiledType) : List Errand :=
  .enter .install :: (t.installers.map .install ++ [.finish .install])

/-- All errands of a bootstrap. -/
def agenda (t : CompiledType) : List Errand :=
  t.creating ++ t.validating ++ t.installing

end CompiledType

namespace Instance

/-- Does some work of a step, which is noted as given up if it fails. -/
def during (step : Step) (act : Act Instance Unit) : Act Instance Unit := do
  match ← act.attempt with
  | .ok _ => pure ()
  | .error e =>
      note (.abort step)
      Act.fail e

theorem during_ok {step : Step} {act : Act Instance Unit} {i j : Instance}
    (h : act i = (.ok (), j)) : during step act i = (.ok (), j) := by
  unfold during
  rw [Act.bind_apply, Act.attempt_apply, h]
  rfl

theorem during_error {step : Step} {act : Act Instance Unit} {i j : Instance} {e : Error}
    (h : act i = (.error e, j)) :
    during step act i = (.error e, { j with workshop := j.workshop.note (.abort step) }) := by
  unfold during
  rw [Act.bind_apply, Act.attempt_apply, h]
  rfl

theorem during_congr {step : Step} {act other : Act Instance Unit} {i j : Instance}
    (h : act i = other j) : during step act i = during step other j := by
  unfold during
  rw [Act.bind_apply, Act.bind_apply, Act.attempt_apply, Act.attempt_apply, h]

theorem during_fst (step : Step) (act : Act Instance Unit) (i : Instance) :
    (during step act i).1 = (act i).1 := by
  rcases hrun : act i with ⟨_ | _, j⟩
  · rw [during_error hrun]
  · rw [during_ok hrun]

theorem during_becomes {step : Step} {act : Act Instance Unit} (h : act.Keeps Becomes) :
    (during step act).Keeps Becomes := by
  refine h.attempt.bind fun outcome => ?_
  cases outcome with
  | ok _ => exact Act.keeps_pure ()
  | error e => exact (note_becomes rfl).bind fun _ => Act.keeps_fail e

/-- Looks up one path of a requirement. -/
def checkPath (requirement : Requirement) (path : String) : Act Instance Unit := do
  let _ ← (get path).mapError
    (Error.intoRequirement .requires requirement.identity requirement.origin)

theorem checkPath_becomes (requirement : Requirement) (path : String) :
    (checkPath requirement path).Keeps Becomes :=
  ((get_becomes path).mapError _).bind fun _ => Act.keeps_pure ()

end Instance

/-- Does an errand. -/
def Errand.perform (eval : Evaluator) : Errand → Act Instance Unit
  | .enter step => Instance.enter step
  | .create item => during .createThings (Instance.create eval.make item)
  | .resolve requirement path => during .sanityCheck (checkPath requirement path)
  | .check checker => during .sanityCheck (runChecker eval checker)
  | .approve method => during .sanityCheck (checkMethod method)
  | .install installer => during .install (runInstaller eval installer)
  | .finish step => note (.finish step)

/-! ## A step as errands -/

/-- It is the same whether a failure is noted for two works or for the one of them that fails. -/
theorem during_bind (step : Step) (first second : Act Instance Unit) :
    during step (first >>= fun _ => second) =
      during step first >>= fun _ => during step second := by
  funext i
  rw [Act.bind_apply]
  rcases hrun : first i with ⟨e | _, j⟩
  · rw [during_error hrun, during_error (Act.bind_error hrun)]
  · have hsame : (first >>= fun _ => second) i = second j := by
      rw [Act.bind_apply, hrun]
    rw [during_ok hrun, during_congr hsame]

theorem forEach_during {α : Type} (step : Step) (as : List α) (work : α → Act Instance Unit) :
    Act.forEach as (fun a => during step (work a)) = during step (Act.forEach as work) := by
  induction as with
  | nil => rfl
  | cons a as ih =>
      show (during step (work a) >>= fun _ => Act.forEach as fun a => during step (work a)) =
        during step (work a >>= fun _ => Act.forEach as work)
      rw [during_bind, ih]

/-- A step is undertaken by running its errands. -/
theorem undertake_eq {eval : Evaluator} {step : Step} {all : Act Instance Unit} {i : Instance}
    {errands : List Errand}
    (h : during step all (i.begun step) =
      Act.forEach errands (Errand.perform eval) (i.begun step)) :
    undertake step all i =
      Act.forEach (.enter step :: (errands ++ [.finish step])) (Errand.perform eval) i := by
  cases hmisstep : i.misstep? step with
  | some misstep =>
      have henter : Errand.perform eval (.enter step) i = _ := enter_refused hmisstep
      rw [undertake_refused hmisstep, Act.forEach_cons_error henter]
  | none =>
      have henter : Errand.perform eval (.enter step) i = (.ok (), i.begun step) := by
        show Instance.enter step i = _
        unfold Instance.enter
        rw [hmisstep]
      rw [Act.forEach_cons_ok henter, Act.forEach_append]
      rcases hrun : all (i.begun step) with ⟨_ | _, j⟩
      · rw [undertake_begun hmisstep hrun]
        rw [during_error hrun] at h
        exact (Act.bind_error h.symm).symm
      · rw [undertake_begun hmisstep hrun, Act.bind_apply, ← h, during_ok hrun]
        rfl

/-! ## The steps as errands -/

theorem createThings_eq (eval : Evaluator) (i : Instance) :
    Instance.createThings eval.make i =
      Act.forEach i.compiled.creating (Errand.perform eval) i := by
  refine undertake_eq ?_
  rw [Act.forEach_map]
  exact (congrFun (forEach_during _ _ _) _).symm

/-- It does not matter from which moment on a path is looked up. -/
theorem Requirement.check_eq (r : Requirement) {i j : Instance} (h : j.compiled = i.compiled) :
    r.check i.asNamespace j = Act.forEach r.paths (checkPath r) j := by
  have hsame : ∀ (path : String) (k : Instance), k.compiled = i.compiled →
      i.asNamespace.resolve path k = get path k := by
    intro path k hk
    rw [resolve_apply, get_apply, describe_congr hk]
  symm
  refine Act.forEach_congr (I := fun k => k.compiled = i.compiled) (fun path _ k hk => ?_)
    (fun path _ k hk => ?_) h
  · exact (checkPath_becomes r path k).lasts.compiled.trans hk
  · unfold checkPath
    rw [Act.bind_apply, Act.bind_apply, Act.mapError, Act.mapError, hsame path k hk]

theorem checkAll_eq (eval : Evaluator) (i : Instance) :
    checkAll eval i =
      (Act.forEach i.compiled.requirements (fun r => Act.forEach r.paths (checkPath r)) >>= fun _ =>
        Act.forEach i.compiled.checkers (runChecker eval) >>= fun _ =>
          Act.forEach i.compiled.methods checkMethod) i := by
  have hpaths : Act.forEach i.compiled.requirements (fun r => r.check i.asNamespace) i =
      Act.forEach i.compiled.requirements (fun r => Act.forEach r.paths (checkPath r)) i := by
    refine Act.forEach_congr (I := fun k => k.compiled = i.compiled) (fun r _ k hk => ?_)
      (fun r _ k hk => r.check_eq hk) rfl
    have hbecomes : (Act.forEach r.paths (checkPath r)).Keeps Becomes :=
      Act.keeps_forEach fun path _ => checkPath_becomes r path
    rw [r.check_eq hk]
    exact (hbecomes k).lasts.compiled.trans hk
  rw [Act.bind_apply, ← hpaths]
  rfl

theorem sanityCheck_eq (eval : Evaluator) (i : Instance) :
    Instance.sanityCheck eval i = Act.forEach i.compiled.validating (Errand.perform eval) i := by
  refine undertake_eq ?_
  have hpaths : Act.forEach
        (i.compiled.requirements.flatMap fun requirement =>
          requirement.paths.map (Errand.resolve requirement)) (Errand.perform eval) =
      during .sanityCheck
        (Act.forEach i.compiled.requirements fun r => Act.forEach r.paths (checkPath r)) := by
    rw [Act.forEach_flatMap, ← forEach_during]
    congr 1
    funext r
    rw [Act.forEach_map, ← forEach_during]
    rfl
  rw [Act.forEach_append, Act.forEach_append, Act.bind_assoc, Act.forEach_map, Act.forEach_map,
    hpaths]
  show _ = (during .sanityCheck _ >>= fun _ =>
    (Act.forEach i.compiled.checkers fun checker =>
      during .sanityCheck (runChecker eval checker)) >>= fun _ =>
    Act.forEach i.compiled.methods fun method => during .sanityCheck (checkMethod method)) _
  rw [forEach_during, forEach_during, ← during_bind, ← during_bind]
  exact during_congr (checkAll_eq eval (i.begun .sanityCheck))

theorem install_eq (eval : Evaluator) (i : Instance) :
    Instance.install eval i = Act.forEach i.compiled.installing (Errand.perform eval) i := by
  refine undertake_eq ?_
  rw [Act.forEach_map]
  exact (congrFun (forEach_during _ _ _) _).symm

/-- A bootstrap runs the errands of the agenda. Native code may do to the instance what it likes in
between, the agenda stays the same. -/
theorem Instance.bootstrap_eq {eval : Evaluator} (heval : eval.Free) (i : Instance) :
    Instance.bootstrap eval i = Act.forEach i.compiled.agenda (Errand.perform eval) i := by
  have hfirst := createThings_becomes eval.make i
  unfold CompiledType.agenda Instance.bootstrap
  rw [Act.forEach_append, Act.forEach_append, Act.bind_assoc, Act.bind_apply, Act.bind_apply,
    ← createThings_eq]
  rcases hcreated : Instance.createThings eval.make i with ⟨e | _, j⟩
  · rfl
  · rw [hcreated] at hfirst
    have hsecond := sanityCheck_becomes heval.becomes j
    show (Instance.sanityCheck eval >>= fun _ => Instance.install eval) j =
      (Act.forEach i.compiled.validating (Errand.perform eval) >>= fun _ =>
        Act.forEach i.compiled.installing (Errand.perform eval)) j
    rw [Act.bind_apply, Act.bind_apply, ← hfirst.lasts.compiled, ← sanityCheck_eq]
    rcases hchecked : Instance.sanityCheck eval j with ⟨e | _, k⟩
    · rfl
    · rw [hchecked] at hsecond
      rw [← hsecond.lasts.compiled]
      exact install_eq eval k

/-! ## What errands change -/

/-- The step that an errand is a part of. -/
def Errand.step : Errand → Step
  | .enter step | .finish step => step
  | .create _ => .createThings
  | .resolve _ _ | .check _ | .approve _ => .sanityCheck
  | .install _ => .install

section

variable {eval : Evaluator} (heval : eval.Free)
include heval

/-- The errands of the later steps move an instance on. -/
theorem Errand.perform_becomes {errand : Errand} (hlater : errand.step ≠ .createThings) :
    (errand.perform eval).Keeps Becomes := by
  have hcalls := becomes_calls heval.becomes
  cases errand with
  | enter step =>
      intro i
      show i.Becomes (Instance.enter step i).2
      unfold Instance.enter
      cases hmisstep : i.misstep? step with
      | some misstep => exact Std.Refl.refl i
      | none => exact (Move.enter i hlater hmisstep).becomes
  | create item => exact absurd rfl hlater
  | resolve requirement path => exact during_becomes (checkPath_becomes requirement path)
  | check checker => exact during_becomes (hcalls.runChecker (note_becomes rfl))
  | approve method => exact during_becomes (hcalls.checkMethod method)
  | install installer => exact during_becomes (hcalls.runInstaller (note_becomes rfl))
  | finish step => exact note_becomes rfl

/-- The type and the runner stay, and what was created stays created, whatever an errand does. -/
theorem Errand.perform_lasts (errand : Errand) : (errand.perform eval).Keeps Lasts := by
  cases errand with
  | enter step =>
      intro i
      show i.Lasts (Instance.enter step i).2
      unfold Instance.enter
      cases i.misstep? step with
      | some misstep => exact Std.Refl.refl i
      | none => exact ⟨rfl, rfl, fun h => by simp [begun, h]⟩
  | create item =>
      intro i
      have hcreated := create_lasts eval.make item i
      rcases hrun : Instance.create eval.make item i with ⟨e | _, j⟩
      · rw [hrun] at hcreated
        show i.Lasts (during .createThings (Instance.create eval.make item) i).2
        rw [during_error hrun]
        exact ⟨hcreated.compiled, hcreated.runner, hcreated.materialized⟩
      · rw [hrun] at hcreated
        show i.Lasts (during .createThings (Instance.create eval.make item) i).2
        rw [during_ok hrun]
        exact hcreated
  | finish step => exact (note_becomes rfl).mono Becomes.lasts
  | resolve _ _ | check _ | approve _ | install _ =>
      exact (perform_becomes heval (by simp [step])).mono Becomes.lasts

end

end AppAssembly
