import AppAssembly.Instance.Basic
import AppAssembly.Value.Equal

/-!
# Calling values on an instance

How a value is called does not depend on how native code is run, so this is left open: an
evaluator runs a script with its arguments on an instance, and has a builder for the recipes of
factories.
-/

namespace AppAssembly

/-- How native code is run: what factories build, and scripts on an instance. -/
structure Evaluator where
  make : Builder
  run : Script → List Value → Act Instance Value

/-- Calls a callable: the values of the paths it requires come before the arguments. -/
def Callable.call (eval : Evaluator) (c : Callable) (args : List Value) : Act Instance Value := do
  let required ← Act.mapList c.requires fun path =>
    (Instance.get path).mapError (Error.intoRequirement .requires c.name c.origin)
  eval.run c.body (required ++ args)

def Obj.call (eval : Evaluator) (o : Obj) (name : String) (args : List Value) :
    Act Instance Value :=
  match Entries.get? o.methods name with
  | some body => eval.run body args
  | none => Act.fail (.noSuchMethod o.typeName name)

def Factory.call (f : Factory) (make : Builder) : Act Instance Value :=
  Instance.inWorkshop fun w =>
    match f.construct [] make w with
    | (.ok v, w) => (.ok v, w)
    | (.error fault, w) => (.error (.callFailed f.name fault.message), w)

/-- Calls a value. A factory can only be called without arguments. -/
def Value.invoke (eval : Evaluator) (v : Value) (args : List Value) : Act Instance Value :=
  match v with
  | .callable c => c.call eval args
  | .method receiver name => receiver.call eval name args
  | .factory f =>
      if args.isEmpty then f.call eval.make else Act.fail (.notCallable v.describe v.kind)
  | _ => Act.fail (.notCallable v.describe v.kind)

def Instance.call (eval : Evaluator) (path : String) (args : List Value) : Act Instance Value := do
  let v ← Instance.get path
  v.invoke eval args

end AppAssembly
