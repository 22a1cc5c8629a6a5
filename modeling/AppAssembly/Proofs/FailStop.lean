import AppAssembly.Proofs.Hierarchy
import AppAssembly.Proofs.Jobs
import Mathlib.Data.List.Nodup

/-!
# A bootstrap stops at the first failure

The native code that a bootstrap calls itself are the factories of what has to be built, the
checkers and the installers of the type. What it called, each at the moment when it did, is its
trace. Native code may do to the instance what it likes, also set attributes that later steps look
up; still the trace follows the lists of the type and ends where something fails
(`bootstrap_failStop`).
-/

namespace AppAssembly

open Instance

/-! ## The course and the trace of a bootstrap -/

namespace Instance

/-- What a bootstrap begins, each errand with the moment at which it is begun. -/
def course (eval : Evaluator) (i : Instance) : List (Errand × Instance) :=
  Act.course (Errand.perform eval) i.compiled.agenda i

/-- What a bootstrap calls, each job with the moment at which it is done. -/
def trace (eval : Evaluator) (i : Instance) : List (Job × Instance) :=
  (i.course eval).flatMap fun (errand, j) => errand.jobs eval.make j

/-- The checkers that a bootstrap skips, since their value is not one to call. -/
def skipped (eval : Evaluator) (i : Instance) : List Checker :=
  (i.course eval).filterMap fun
    | (.check checker, j) =>
        if j.finds checker.identity fun v => !v.isChecking then some checker else none
    | _ => none

end Instance

/-- All that a type has a bootstrap call, in order, but for some checkers. -/
def CompiledType.jobs (t : CompiledType) (skipped : List Checker) : List Job :=
  (t.deferred.flatMap fun item => item.builds.map .build) ++
    (t.checkers.filter (· ∉ skipped)).map .check ++ t.installers.map .install

theorem CompiledType.agenda_due (t : CompiledType) (skipped : List Checker) :
    t.agenda.flatMap (Errand.due skipped) = t.jobs skipped := by
  have hcheckers : ∀ checkers : List Checker,
      (checkers.flatMap fun checker => Errand.due skipped (.check checker)) =
        (checkers.filter (· ∉ skipped)).map .check := by
    intro checkers
    induction checkers with
    | nil => rfl
    | cons checker rest ih =>
        rw [List.flatMap_cons, ih]
        by_cases h : checker ∈ skipped
        · simp [Errand.due, h]
        · simp [Errand.due, h]
  have hinstallers : ∀ installers : List Installer,
      (installers.flatMap fun installer => Errand.due skipped (.install installer)) =
        installers.map .install := by
    intro installers
    exact List.map_eq_flatMap.symm
  have hmethods : ∀ methods : List Method,
      (methods.flatMap fun method => Errand.due skipped (.approve method)) = [] := by
    simp [Errand.due]
  have hpaths : ∀ requirements : List Requirement,
      (requirements.flatMap fun r => r.paths.map (.resolve r)).flatMap (Errand.due skipped) =
        [] := by
    intro requirements
    rw [List.flatMap_assoc]
    simp [List.flatMap_map, Errand.due]
  simp only [CompiledType.agenda, CompiledType.creating, CompiledType.validating,
    CompiledType.installing, CompiledType.jobs, List.flatMap_append, List.flatMap_map,
    List.flatMap_cons, List.flatMap_nil, hcheckers, hinstallers, hmethods, hpaths]
  simp [Errand.due]

/-! ## The checkers that are skipped -/

/-- The checker that an errand is for, if it is for one. -/
def Errand.checker? : Errand → Option Checker
  | .check checker => some checker
  | _ => none

namespace CompiledType

theorem agenda_checkers (t : CompiledType) : t.agenda.filterMap Errand.checker? = t.checkers := by
  have hpaths : ∀ requirements : List Requirement,
      (requirements.flatMap fun r => r.paths.map (.resolve r)).filterMap Errand.checker? = [] := by
    intro requirements
    simp [List.filterMap_flatMap, List.filterMap_map, Errand.checker?]
  have hcheckers : (t.checkers.map Errand.check).filterMap Errand.checker? = t.checkers := by
    rw [List.filterMap_map]
    exact List.filterMap_some
  have hothers : (t.deferred.map Errand.create).filterMap Errand.checker? = [] ∧
      (t.methods.map Errand.approve).filterMap Errand.checker? = [] ∧
      (t.installers.map Errand.install).filterMap Errand.checker? = [] := by
    simp [List.filterMap_map, Errand.checker?]
  simp only [agenda, creating, validating, installing, List.filterMap_append, List.filterMap_cons,
    List.filterMap_nil, hpaths, hcheckers, hothers, Errand.checker?, List.append_nil,
    List.nil_append]

/-- Where every element keeps its key, keys are there no more often than before. -/
theorem map_filterMap_sublist {α β κ : Type} {f : α → Option β} {key : β → κ} {own : α → κ}
    (h : ∀ a b, f a = some b → key b = own a) (l : List α) :
    ((l.filterMap f).map key).Sublist (l.map own) := by
  induction l with
  | nil => exact .slnil
  | cons a l ih =>
      cases ha : f a with
      | none =>
          rw [List.filterMap_cons_none ha, List.map_cons]
          exact ih.cons _
      | some b =>
          rw [List.filterMap_cons_some ha, List.map_cons, List.map_cons, h a b ha]
          exact ih.cons_cons _

theorem nodup_deferred (t : CompiledType) : (t.deferred.map Deferred.identity).Nodup := by
  refine List.Nodup.sublist (map_filterMap_sublist (fun entry item h => ?_) _)
    (nodup_map_firstBy _ _)
  dsimp only at h
  split at h
  · cases h
    rfl
  · cases h

theorem nodup_checkers (t : CompiledType) : (t.checkers.map Checker.identity).Nodup :=
  List.Nodup.sublist (List.filter_sublist.map _) (nodup_map_firstBy _ _)

theorem nodup_installers (t : CompiledType) : (t.installers.map Installer.identity).Nodup := by
  refine List.Nodup.sublist (map_filterMap_sublist (fun entry installer h => ?_) _)
    (nodup_map_firstBy _ _)
  obtain ⟨path, _, rfl⟩ := Option.map_eq_some_iff.mp h
  rfl

end CompiledType

theorem Instance.mem_skipped_iff {eval : Evaluator} {i : Instance} {checker : Checker} :
    checker ∈ i.skipped eval ↔
      ∃ j, (.check checker, j) ∈ i.course eval ∧
        j.finds checker.identity (fun v => !v.isChecking) = true := by
  unfold skipped
  rw [List.mem_filterMap]
  constructor
  · rintro ⟨⟨errand, j⟩, hmem, hsome⟩
    cases errand with
    | check other =>
        dsimp only at hsome
        split at hsome
        · rename_i hfinds
          cases hsome
          exact ⟨j, hmem, hfinds⟩
        · cases hsome
    | _ => cases hsome
  · rintro ⟨j, hmem, hfinds⟩
    exact ⟨(.check checker, j), hmem, by simp [hfinds]⟩

/-- Whether a checker is skipped is decided at the one moment when it is its turn. -/
theorem Instance.mem_skipped_of_course {eval : Evaluator} {i j : Instance} {checker : Checker}
    (h : (.check checker, j) ∈ i.course eval) :
    checker ∈ i.skipped eval ↔ j.finds checker.identity (fun v => !v.isChecking) = true := by
  have hnodup : (i.compiled.agenda.filterMap Errand.checker?).Nodup := by
    rw [i.compiled.agenda_checkers]
    exact List.Nodup.of_map _ i.compiled.nodup_checkers
  rw [mem_skipped_iff]
  constructor
  · rintro ⟨k, hmem, hfinds⟩
    obtain ⟨_, rfl⟩ := Prod.mk.inj (Act.course_unique hnodup h hmem rfl rfl)
    exact hfinds
  · intro hfinds
    exact ⟨j, h, hfinds⟩

/-! ## The whole bootstrap -/

/-- How a bootstrap goes and where it stops. -/
structure Instance.FailStop (eval : Evaluator) (i : Instance) : Prop where
  /-- The bootstrap does run the errands of the agenda. -/
  runs : Instance.bootstrap eval i = Act.forEach i.compiled.agenda (Errand.perform eval) i
  begins : (i.course eval).map Prod.fst <+: i.compiled.agenda
  /-- Nothing is begun after a failure, and the failure is the outcome. -/
  stops : Act.Stops (fun m e => (m.1.perform eval m.2).1 = .error e) (i.course eval)
    (Instance.bootstrap eval i).1
  /-- What is called is a beginning of what the type has, in the order of the type. -/
  calls : (i.trace eval).map Prod.fst <+: i.compiled.jobs (i.skipped eval)
  complete : (Instance.bootstrap eval i).1 = .ok () →
    (i.trace eval).map Prod.fst = i.compiled.jobs (i.skipped eval)
  /-- The type has nothing under one identity twice. -/
  distinct : (i.compiled.deferred.map Deferred.identity).Nodup ∧
    (i.compiled.checkers.map Checker.identity).Nodup ∧
    (i.compiled.installers.map Installer.identity).Nodup
  /-- A checker is skipped for the value that it has when it is its turn. -/
  skips : ∀ checker j, (.check checker, j) ∈ i.course eval →
    (checker ∈ i.skipped eval ↔ ∃ v, (get checker.identity j).1 = .ok v ∧ v.isChecking = false)
  /-- Nothing is called after a call that has failed. -/
  failures : Act.Stops (fun m e => (m.1.run eval m.2).1 = .error e) (i.trace eval)
    (Instance.bootstrap eval i).1
  /-- No checker and no installer is called unless every path of every requirement was looked up,
  and did resolve. -/
  requirements : ∀ m ∈ i.trace eval, (∀ b, m.1 ≠ .build b) →
    ∀ r ∈ i.compiled.requirements, ∀ path ∈ r.paths,
      (∃ j, (.resolve r path, j) ∈ i.course eval) ∧
        ∀ j, (.resolve r path, j) ∈ i.course eval → ∃ v, (get path j).1 = .ok v
  /-- No installer is called unless every checker has passed or was skipped, and every attribute
  that has to be callable was. -/
  approvals : ∀ m ∈ i.trace eval, ∀ installer, m.1 = .install installer →
    (∀ checker ∈ i.compiled.checkers, (∃ j, (.check checker, j) ∈ i.course eval) ∧
      ∀ j, (.check checker, j) ∈ i.course eval → (runChecker eval checker j).1 = .ok ()) ∧
    ∀ method ∈ i.compiled.methods, (∃ j, (.approve method, j) ∈ i.course eval) ∧
      ∀ j, (.approve method, j) ∈ i.course eval →
        ∃ v, (get method.identity j).1 = .ok v ∧ v.isCallable = true
  /-- Unless native code undertakes steps by hand, nothing else is noted as called. -/
  noted : eval.Bounded →
    (Instance.bootstrap eval i).2.works = i.works ++ (i.trace eval).map fun m => m.1.deed

namespace Instance

variable {eval : Evaluator} {i : Instance}

/-- A call is made by an errand that was begun. -/
theorem exists_errand {m : Job × Instance} (h : m ∈ i.trace eval) :
    ∃ errand j, (errand, j) ∈ i.course eval ∧ m ∈ errand.jobs eval.make j := by
  obtain ⟨⟨errand, j⟩, hbegun, hm⟩ := List.mem_flatMap.mp h
  exact ⟨errand, j, hbegun, hm⟩

theorem requirements_gate {m : Job × Instance} (hm : m ∈ i.trace eval)
    (hlater : ∀ b, m.1 ≠ .build b) {r : Requirement} (hr : r ∈ i.compiled.requirements)
    {path : String} (hpath : path ∈ r.paths) :
    (∃ j, (.resolve r path, j) ∈ i.course eval) ∧
      ∀ j, (.resolve r path, j) ∈ i.course eval → ∃ v, (get path j).1 = .ok v := by
  obtain ⟨errand, k, hbegun, hjob⟩ := exists_errand hm
  let front : List Errand := i.compiled.creating ++ .enter .sanityCheck ::
    i.compiled.requirements.flatMap fun requirement => requirement.paths.map (.resolve requirement)
  let back : List Errand := i.compiled.checkers.map .check ++ i.compiled.methods.map .approve ++
    [.finish .sanityCheck] ++ i.compiled.installing
  have hsplit : i.compiled.agenda = front ++ back := by
    simp [front, back, CompiledType.agenda, CompiledType.validating]
  have hbehind : errand ∉ front := by
    rcases errand.mem_jobs hjob with ⟨_, b, _, hb⟩ | ⟨checker, rfl, _⟩ | ⟨installer, rfl, _⟩
    · exact absurd hb (hlater b)
    · simp [front, CompiledType.creating]
    · simp [front, CompiledType.creating]
  unfold course at hbegun ⊢
  rw [hsplit] at hbegun ⊢
  obtain ⟨hall, hpassed⟩ := Act.course_gate hbegun hbehind
  constructor
  · refine hall _ ?_
    simp only [front, List.mem_append, List.mem_cons, List.mem_flatMap, List.mem_map]
    exact .inr (.inr ⟨r, hr, path, hpath, rfl⟩)
  · intro j hj
    have hok := hpassed _ j hj (by simp [back, CompiledType.installing])
    exact checkPath_ok ((during_fst .sanityCheck _ _).symm.trans hok)

theorem approvals_gate {m : Job × Instance} (hm : m ∈ i.trace eval) {installer : Installer}
    (hinstall : m.1 = .install installer) :
    (∀ checker ∈ i.compiled.checkers, (∃ j, (.check checker, j) ∈ i.course eval) ∧
      ∀ j, (.check checker, j) ∈ i.course eval → (runChecker eval checker j).1 = .ok ()) ∧
    ∀ method ∈ i.compiled.methods, (∃ j, (.approve method, j) ∈ i.course eval) ∧
      ∀ j, (.approve method, j) ∈ i.course eval →
        ∃ v, (get method.identity j).1 = .ok v ∧ v.isCallable = true := by
  obtain ⟨errand, k, hbegun, hjob⟩ := exists_errand hm
  have hbehind : errand ∉ i.compiled.creating ++ i.compiled.validating := by
    rcases errand.mem_jobs hjob with ⟨_, b, _, hb⟩ | ⟨checker, _, hc⟩ | ⟨other, rfl, _⟩
    · rw [hb] at hinstall
      cases hinstall
    · rw [hc] at hinstall
      cases hinstall
    · simp [CompiledType.creating, CompiledType.validating]
  unfold course at hbegun ⊢
  obtain ⟨hall, hpassed⟩ := Act.course_gate hbegun hbehind
  constructor
  · intro checker hchecker
    refine ⟨hall _ (by simp [CompiledType.validating, hchecker]), fun j hj => ?_⟩
    have hok := hpassed _ j hj (by simp [CompiledType.installing])
    exact (during_fst .sanityCheck _ _).symm.trans hok
  · intro method hmethod
    refine ⟨hall _ (by simp [CompiledType.validating, hmethod]), fun j hj => ?_⟩
    have hok := hpassed _ j hj (by simp [CompiledType.installing])
    exact checkMethod_ok ((during_fst .sanityCheck _ _).symm.trans hok)

/-- What is called follows what is due for the errands that were begun. -/
theorem trace_due (eval : Evaluator) (i : Instance) :
    (i.trace eval).map Prod.fst <+: i.compiled.jobs (i.skipped eval) ∧
      ((Act.forEach i.compiled.agenda (Errand.perform eval) i).1 = .ok () →
        (i.trace eval).map Prod.fst = i.compiled.jobs (i.skipped eval)) := by
  unfold trace
  rw [List.map_flatMap, ← i.compiled.agenda_due]
  refine Act.flatMap_course fun m hm => ?_
  obtain ⟨errand, j⟩ := m
  refine Errand.jobs_due fun checker hchecker => ?_
  subst hchecker
  exact mem_skipped_of_course hm

/-- Only the first errand is run on an instance without its things. -/
theorem noted_of_bounded (heval : eval.Bounded) (i : Instance) :
    (Act.forEach i.compiled.agenda (Errand.perform eval) i).2.works =
      i.works ++ (i.trace eval).map fun m => m.1.deed := by
  unfold trace course
  rw [List.map_flatMap]
  exact step_works heval (fun _ => by simp [begun]) i.compiled.agenda.tail

/-- A bootstrap is ordered and stops at the first failure. The native code that it calls itself are
the factories, checkers and installers of the type, in this order and each once, up to the first
one that fails; and none of a step unless everything before has succeeded. -/
theorem bootstrap_failStop (heval : eval.Free) (i : Instance) : i.FailStop eval := by
  have hruns := bootstrap_eq heval i
  obtain ⟨hcalls, hcomplete⟩ := trace_due eval i
  exact
    { runs := hruns
      begins := Act.course_begins _ _ _
      stops := by
        rw [hruns]
        exact Act.stops_course _ _ _
      calls := hcalls
      complete := by
        rw [hruns]
        exact hcomplete
      distinct :=
        ⟨i.compiled.nodup_deferred, i.compiled.nodup_checkers, i.compiled.nodup_installers⟩
      skips := by
        intro checker j hj
        rw [mem_skipped_of_course hj, finds_iff]
        simp
      failures := by
        rw [hruns]
        exact Act.stops_flatMap fun m _ => Errand.jobs_stops
      requirements := fun m hm hlater r hr path hpath => requirements_gate hm hlater hr hpath
      approvals := fun m hm installer hinstall => approvals_gate hm hinstall
      noted := by
        intro hbounded
        rw [hruns]
        exact noted_of_bounded hbounded i }

end Instance

/-! ## A checker that fails

A type has two components, a type built on it two checkers, and one built on that has a component
installed. It hides one checker by a callable that is none; the other one fails. -/

namespace Unready

def part : Factory :=
  ⟨.given 0, "Part", [], [], none, .object "Part" [] [("install", .give .null)]⟩

def idle : Callable :=
  ⟨.given 1, "idle", [], true, none, .give .null⟩

def ready : Callable :=
  ⟨.given 2, "ready", [], true, none, .raise (.other "not ready")⟩

def machine : Compilation :=
  .ofOk .builtIn 0
    { name := "Machine"
      blocks := [{
        identity := "Components"
        entries := [("disk", .factory part), ("lamp", .factory part)] }] }
    [] (by decide +kernel)

def checked : Compilation :=
  .ofOk .builtIn 1
    { name := "Checked"
      blocks := [{
        identity := "Checkers"
        entries := [("idle", .callable idle), ("ready", .callable ready)] }] }
    [machine.compiled] (by decide +kernel)

def installed : Compilation :=
  .ofOk .builtIn 2
    { name := "Installed"
      blocks := [{ identity := "Install", entries := [("disk", .str "components.disk")] }]
      members := [("idle", .callable { idle with checker := false })] }
    [checked.compiled] (by decide +kernel)

def start : Instance :=
  Instance.ofType installed.compiled

/-- Everything up to the failure was called once, and nothing after it. -/
theorem bootstrap_failStop_start :
    (bootstrap native start).1.isOk = false ∧
    (start.skipped native).map Checker.identity = ["idle"] ∧
    installed.compiled.installers.map Installer.identity = ["disk"] ∧
    (bootstrap native start).2.works =
      [.build "components.disk", .build "components.lamp", .check "ready"] := by
  refine ⟨by decide +kernel, by decide +kernel, by decide +kernel, ?_⟩
  rw [(bootstrap_failStop native_free start).noted native_bounded]
  decide +kernel

end Unready

end AppAssembly
