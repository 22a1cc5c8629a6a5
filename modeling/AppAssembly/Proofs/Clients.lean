import AppAssembly.Instance.Evaluate

/-!
# Clients of an instance

Whoever uses an instance, an application from outside or the native code of its members, can only
do so through what an instance offers. Native code moreover runs at a finite depth: what it calls
runs one level below, and at the lowest level every call fails.
-/

namespace AppAssembly

/-- A computation that uses an instance only through what it offers. It may look at the instance,
decide by what it has got, and go on after failures; `byHand` says whether it may also call the
steps of the life cycle one by one. -/
inductive Client (byHand : Bool) (eval : Evaluator) : {α : Type} → Act Instance α → Prop where
  | pure {α : Type} (a : α) : Client byHand eval (pure a)
  | fail {α : Type} (e : Error) : Client byHand eval (Act.fail e : Act Instance α)
  | bind {α β : Type} {act : Act Instance α} {next : α → Act Instance β}
      (first : Client byHand eval act) (further : ∀ a, Client byHand eval (next a)) :
      Client byHand eval (act >>= next)
  | attempt {α : Type} {act : Act Instance α} (tried : Client byHand eval act) :
      Client byHand eval act.attempt
  | look : Client byHand eval Act.state
  | get (path : String) : Client byHand eval (Instance.get path)
  | set (name : String) (v : Value) : Client byHand eval (Instance.set name v)
  | write (line : String) : Client byHand eval (Instance.write line)
  | invoke (v : Value) (args : List Value) : Client byHand eval (v.invoke eval args)
  | bootstrap : Client byHand eval (Instance.bootstrap eval)
  | execute : Client byHand eval (Instance.execute eval)
  | createThings (h : byHand = true) : Client byHand eval (Instance.createThings eval.make)
  | sanityCheck (h : byHand = true) : Client byHand eval (Instance.sanityCheck eval)
  | install (h : byHand = true) : Client byHand eval (Instance.install eval)
  | run (h : byHand = true) : Client byHand eval (Instance.run eval)

namespace Client

variable {byHand : Bool} {eval : Evaluator}

theorem has (path : String) : Client byHand eval (Instance.has path) :=
  .bind (.attempt (.get path)) fun _ => .pure _

theorem call (path : String) (args : List Value) :
    Client byHand eval (Instance.call eval path args) :=
  .bind (.get path) fun v => .invoke v args

end Client

/-- Native code that runs at a finite depth; what factories build is up to the builder. -/
inductive Evaluator.Bounded : Evaluator → Prop where
  | lowest (make : Builder) : Bounded ⟨make, fun _ _ => Act.fail .tooDeep⟩
  | above {inner outer : Evaluator} (below : Bounded inner)
      (client : ∀ script args, Client false inner (outer.run script args)) : Bounded outer

/-- Native code by which a script that raises an error comes to this error. -/
def Evaluator.Raises (eval : Evaluator) : Prop :=
  ∀ e args, eval.run (.raise e) args = Act.fail e

/-- A script does nothing but use its instance. -/
theorem Script.evaluate_client (eval : Evaluator) :
    ∀ (script : Script) (args : List Value), Client false eval (script.evaluate eval args)
  | .give _, _ | .giveArgs, _ | .giveArg _, _ | .sumArgs, _ => .pure _
  | .get path, _ => .get path
  | .has path, _ => .bind (.has path) fun _ => .pure _
  | .call path, args => .call path args
  | .set name v, _ => .bind (.set name v) fun _ => .pure _
  | .phase, _ => .bind .look fun _ => .pure _
  | .bootstrap, _ => .bind .bootstrap fun _ => .pure _
  | .expect path v, _ | .confirm path v, _ => by
      refine .bind (.get path) fun found => ?_
      split
      · exact .pure _
      · exact .fail _
  | .raise e, _ => .fail e
  | .log line, _ | .say line, _ | .sayArg line _, _ => .bind (.write _) fun _ => .pure _
  | .andThen first second, args =>
      .bind (evaluate_client eval first args) fun _ => evaluate_client eval second args

theorem evaluator_bounded (depth : Nat) : (evaluator depth).Bounded := by
  induction depth with
  | zero => exact .lowest Recipe.make
  | succ depth ih => exact .above ih (Script.evaluate_client (evaluator depth))

theorem native_bounded : native.Bounded :=
  evaluator_bounded callDepth

theorem native_raises : native.Raises :=
  fun _ _ => rfl

end AppAssembly
