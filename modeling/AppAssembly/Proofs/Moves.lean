import AppAssembly.Proofs.Steps
import Mathlib.Logic.Relation

/-!
# The moves of an instance

Whatever is done to an instance is done in moves that nothing can come in between: looking up a
path, setting a name, creating things, beginning one of the later steps, working in the workshop.
Other code gets its hands on the instance only between two moves, so what every move keeps holds at
any moment (`Reachable`), no matter who drives the instance and how calls are nested
(`Client.becomes`).
-/

namespace AppAssembly

open Instance

variable {α : Type}

/-- The step that a deed begins. -/
def Deed.entered? : Deed → Option Step
  | .enter step => some step
  | _ => none

/-! ## Moves and moments -/

namespace Instance

/-- A change that is made at one go. -/
inductive Move : Instance → Instance → Prop where
  | get (i : Instance) (path : String) : Move i (Instance.get path i).2
  | set (i : Instance) (name : String) (v : Value) : Move i (Instance.set name v i).2
  /-- Things are created at one go: a build gets keyword arguments and its bench only, so whatever
  it does, it has no hold of the instance. -/
  | createThings (i : Instance) (make : Builder) : Move i (Instance.createThings make i).2
  | enter (i : Instance) {step : Step} (hlater : step ≠ .createThings)
      (h : i.misstep? step = none) : Move i (i.begun step)
  | work (i : Instance) (w : Workshop) (h : i.workshop.Adds (fun d => d.entered? = none) w) :
      Move i { i with workshop := w }

/-- One instance comes out of the other by moves. -/
def Becomes (i j : Instance) : Prop :=
  Relation.ReflTransGen Move i j

instance : Std.Refl Becomes where
  refl _ := .refl

instance : Trans Becomes Becomes Becomes where
  trans := Relation.ReflTransGen.trans

theorem Move.becomes {i j : Instance} (h : Move i j) : i.Becomes j :=
  .single h

/-- The moments in the life of an instance at which other code can get hold of it. -/
inductive Reachable : Instance → Prop where
  | new (t : CompiledType) (runner : String) (made : Nat) (journal : List String) :
      Reachable (Instance.ofType t runner ⟨⟨made, journal⟩, []⟩)
  | move {i j : Instance} (hi : Reachable i) (h : Move i j) : Reachable j

theorem Reachable.ofType (t : CompiledType) : Reachable (Instance.ofType t) :=
  .new t "runner" 0 []

theorem Reachable.becomes {i j : Instance} (hi : Reachable i) (h : i.Becomes j) : Reachable j := by
  induction h with
  | refl => exact hi
  | tail _ hmove ih => exact ih.move hmove

/-! ## What moves are made of -/

theorem get_becomes (path : String) : (Instance.get path).Keeps Becomes :=
  fun i => (Move.get i path).becomes

theorem set_becomes (name : String) (v : Value) : (Instance.set name v).Keeps Becomes :=
  fun i => (Move.set i name v).becomes

theorem createThings_becomes (make : Builder) : (Instance.createThings make).Keeps Becomes :=
  fun i => (Move.createThings i make).becomes

theorem inWorkshop_becomes {act : Act Workshop α}
    (h : act.Keeps (Workshop.Adds fun d => d.entered? = none)) :
    (inWorkshop act).Keeps Becomes :=
  fun i => (Move.work i _ (h i.workshop)).becomes

theorem note_becomes {d : Deed} (h : d.entered? = none) : (note d).Keeps Becomes := by
  refine inWorkshop_becomes fun w => ⟨[d], rfl, ?_⟩
  simpa using h

theorem write_becomes (line : String) : (Instance.write line).Keeps Becomes :=
  inWorkshop_becomes fun _ => .of_eq rfl

end Instance

theorem Factory.call_becomes (f : Factory) (make : Builder) : (f.call make).Keeps Becomes := by
  intro i
  obtain ⟨_, _, hwork⟩ := f.call_stays (P := fun d => d.entered? = none) make i
  exact (Move.work i _ hwork).becomes

/-- A later step moves on by beginning, by its work and by noting how it ended. -/
theorem undertake_becomes {step : Step} (hlater : step ≠ .createThings) {work : Act Instance α}
    (hwork : work.Keeps Becomes) : (undertake step work).Keeps Becomes := by
  intro i
  cases hmisstep : i.misstep? step with
  | some misstep =>
      rw [undertake_refused hmisstep]
      exact Std.Refl.refl i
  | none =>
      have hbegun : i.Becomes (i.begun step) := (Move.enter i hlater hmisstep).becomes
      have hdone := hwork (i.begun step)
      rcases hrun : work (i.begun step) with ⟨r, j⟩
      rw [hrun] at hdone
      have hending : (ending step r).entered? = none := by
        cases r <;> rfl
      rw [undertake_begun hmisstep hrun]
      exact Trans.trans (Trans.trans hbegun hdone) (note_becomes hending j)

/-! ## Steps and clients -/

section

variable {eval : Evaluator}
  (heval : ∀ script args, (eval.run script args).Keeps Becomes)
include heval

theorem becomes_calls : CallsKeep eval Becomes :=
  ⟨get_becomes, fun f => f.call_becomes eval.make, heval⟩

theorem sanityCheck_becomes : (Instance.sanityCheck eval).Keeps Becomes :=
  undertake_becomes (by decide) ((becomes_calls heval).checkAll fun _ => note_becomes rfl)

theorem install_becomes : (Instance.install eval).Keeps Becomes :=
  undertake_becomes (by decide) ((becomes_calls heval).installAll fun _ => note_becomes rfl)

theorem run_becomes : (Instance.run eval).Keeps Becomes :=
  undertake_becomes (by decide) ((becomes_calls heval).callRunner (note_becomes rfl))

theorem bootstrap_becomes : (Instance.bootstrap eval).Keeps Becomes :=
  (createThings_becomes eval.make).bind fun _ =>
    (sanityCheck_becomes heval).bind fun _ => install_becomes heval

theorem execute_becomes : (Instance.execute eval).Keeps Becomes :=
  (bootstrap_becomes heval).bind fun _ => run_becomes heval

/-- Whatever a client does, the instance moves on by moves, if it does so under native code. -/
theorem Client.moves {byHand : Bool} {act : Act Instance α} (h : Client byHand eval act) :
    act.Keeps Becomes :=
  h.keeps (becomes_calls heval) set_becomes write_becomes (bootstrap_becomes heval)
    (execute_becomes heval) fun _ => ⟨createThings_becomes eval.make, sanityCheck_becomes heval,
      install_becomes heval, run_becomes heval⟩

end

/-- Native code that runs at a finite depth and may do all that a client can do, including to call
the steps of the life cycle one by one. -/
inductive Evaluator.Free : Evaluator → Prop where
  | lowest (make : Builder) : Free ⟨make, fun _ _ => Act.fail .tooDeep⟩
  | above {inner outer : Evaluator} (below : Free inner)
      (client : ∀ script args, Client true inner (outer.run script args)) : Free outer

theorem Client.byHand {eval : Evaluator} {act : Act Instance α} (h : Client false eval act) :
    Client true eval act := by
  induction h with
  | pure a => exact .pure a
  | fail e => exact .fail e
  | bind _ _ ihFirst ihFurther => exact .bind ihFirst ihFurther
  | attempt _ ih => exact .attempt ih
  | look => exact .look
  | get path => exact .get path
  | set name v => exact .set name v
  | write line => exact .write line
  | invoke v args => exact .invoke v args
  | bootstrap => exact .bootstrap
  | execute => exact .execute
  | createThings h | sanityCheck h | install h | run h => cases h

theorem Evaluator.Bounded.free {eval : Evaluator} (h : eval.Bounded) : eval.Free := by
  induction h with
  | lowest make => exact .lowest make
  | above _ client ih => exact .above ih fun script args => (client script args).byHand

theorem native_free : native.Free :=
  native_bounded.free

/-- Native code moves an instance on. The induction is on its depth. -/
theorem Evaluator.Free.becomes {eval : Evaluator} (h : eval.Free) (script : Script)
    (args : List Value) : (eval.run script args).Keeps Becomes := by
  induction h generalizing script args with
  | lowest => exact Act.keeps_fail _
  | above _ client ih => exact (client script args).moves ih

/-- Whoever uses an instance moves it on. -/
theorem Client.becomes {byHand : Bool} {eval : Evaluator} (heval : eval.Free) {act : Act Instance α}
    (h : Client byHand eval act) : act.Keeps Becomes :=
  h.moves heval.becomes

end AppAssembly
