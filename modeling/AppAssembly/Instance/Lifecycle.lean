import AppAssembly.Instance.Invoke

/-!
# The life of an instance

An instance is created, validated, installed and run, each once and in this order. The step is
marked as begun before its work is done, so a step that failed can't be repeated.
-/

namespace AppAssembly.Instance

/-! ## Undertaking a step -/

/-- What is wrong with a step at this point, if anything is. -/
def misstep? (i : Instance) (step : Step) : Option Misstep :=
  match step with
  | .createThings =>
      if i.phase ≠ step.needs then some (.needsPhase step)
      else if i.materialized then some .alreadyCreated
      else none
  | .sanityCheck =>
      if !i.materialized then some .notCreated
      else if i.phase ≠ step.needs then some (.needsPhase step)
      else none
  | .install | .run => if i.phase ≠ step.needs then some (.needsPhase step) else none

/-- The instance once a step has begun. -/
def begun (i : Instance) (step : Step) : Instance :=
  { i with
    phase := step.reaches
    materialized := i.materialized || step == .createThings
    workshop := i.workshop.note (.enter step) }

/-- Begins a step, if this is the point for it. -/
def enter (step : Step) : Act Instance Unit := fun i =>
  match i.misstep? step with
  | some misstep => (.error (.lifecycle i.phase misstep), i)
  | none => (.ok (), i.begun step)

def ending {α : Type} (step : Step) : Except Error α → Deed
  | .ok _ => .finish step
  | .error _ => .abort step

/-- Begins a step and does its work. -/
def undertake {α : Type} (step : Step) (work : Act Instance α) : Act Instance α := do
  enter step
  let outcome ← work.attempt
  -- the phase has advanced already, and stays even if the work has failed
  note (ending step outcome)
  Act.ofExcept outcome

/-! ## Creating -/

/-- Builds a deferred object and places it. -/
def create (make : Builder) (item : Deferred) : Act Instance Unit := do
  let v ← inWorkshop (item.materialize make)
  Act.modify fun i => i.place item.identity v

/-- Builds everything that the type defers. -/
def createAll (make : Builder) : Act Instance Unit := do
  let i ← Act.state
  Act.forEach i.compiled.deferred (create make)

/-- The first step. -/
def createThings (make : Builder := Recipe.make) : Act Instance Unit :=
  undertake .createThings (createAll make)

/-! ## Validating -/

/-- Runs a checker. What is neither a callable that takes part nor a method is skipped. -/
def runChecker (eval : Evaluator) (checker : Checker) : Act Instance Unit := do
  match ← get checker.identity with
  | .callable c =>
      -- an ancestor's checker may be hidden by a callable that is none
      if c.checker then
        note (.check checker.identity)
        let _ ← c.call eval []
  | .method receiver name =>
      note (.check checker.identity)
      let _ ← receiver.call eval name []
  | _ => pure ()

/-- The complaint about an attribute that has to be callable and isn't. -/
def notCallable (t : CompiledType) (method : Method) (v : Value) : Error :=
  let provenance := t.provenance method.identity
  let field := fun (key : String) (origin : Option Origin) =>
    origin.toList.map fun origin => (key, origin.display)
  .unexpectedValue method.identity v.describe
    (.ofOrigin method.origin
      (field "added_by" provenance.addedBy ++ field "removed_by" provenance.removedBy))

def checkMethod (method : Method) : Act Instance Unit := do
  let v ← get method.identity
  let i ← Act.state
  if v.isCallable then pure () else Act.fail (notCallable i.compiled method v)

/-- Checks the requirements, runs the checkers and looks at the methods. -/
def checkAll (eval : Evaluator) : Act Instance Unit := do
  let i ← Act.state
  Act.forEach i.compiled.requirements fun requirement => requirement.check i.asNamespace
  Act.forEach i.compiled.checkers (runChecker eval)
  Act.forEach i.compiled.methods checkMethod

/-- The second step. -/
def sanityCheck (eval : Evaluator) : Act Instance Unit :=
  undertake .sanityCheck (checkAll eval)

/-! ## Installing -/

/-- The method of an object that installs it. -/
def installMethod : String := "install"

/-- Installs the object that an installer's path leads to. -/
def runInstaller (eval : Evaluator) (installer : Installer) : Act Instance Unit := do
  let target ← (get installer.path).mapError
    (Error.intoRequirement .installing installer.identity installer.origin)
  let missing := Act.fail (.requirementAttribute .installing installer.path target.describe
    installMethod installer.identity installer.origin)
  match target with
  | .object o =>
      if Entries.contains o.methods installMethod then
        note (.install installer.identity)
        let _ ← o.call eval installMethod []
      else missing
  | _ => missing

/-- Installs everything that the type installs, the most derived layer first. -/
def installAll (eval : Evaluator) : Act Instance Unit := do
  let i ← Act.state
  Act.forEach i.compiled.installers (runInstaller eval)

/-- The third step. -/
def install (eval : Evaluator) : Act Instance Unit :=
  undertake .install (installAll eval)

/-! ## Running -/

/-- Calls the runner and returns its value. -/
def callRunner (eval : Evaluator) : Act Instance Value := do
  let i ← Act.state
  let runner ← (get i.runner).mapError
    (Error.intoRequirement .requires i.runner i.compiled.own.origin)
  note .run
  runner.invoke eval []

/-- The last step. -/
def run (eval : Evaluator) : Act Instance Value :=
  undertake .run (callRunner eval)

/-- Creates, validates and installs. -/
def bootstrap (eval : Evaluator) : Act Instance Unit := do
  createThings eval.make
  sanityCheck eval
  install eval

/-- Bootstraps and runs. -/
def execute (eval : Evaluator) : Act Instance Value := do
  bootstrap eval
  run eval

end AppAssembly.Instance
