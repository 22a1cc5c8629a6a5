import AppAssembly.Instance.Lifecycle

/-!
# Running native code

A script does one thing after the other on its instance. Whenever it calls further native code,
that runs one level deeper; the number of levels is bounded, so every call ends.
-/

namespace AppAssembly

namespace Script

/-- The sum of the integers among some values. -/
def sumInts (args : List Value) : Int :=
  (args.filterMap Value.int?).foldl (· + ·) 0

/-- A line of the journal with the arguments in parentheses. -/
def logLine (line : String) (args : List Value) : String :=
  line ++ "(" ++ ", ".intercalate (args.map Value.describe) ++ ")"

/-- Runs a script; `eval` runs the scripts it calls. -/
def evaluate (eval : Evaluator) : Script → List Value → Act Instance Value
  | give v, _ => pure v
  | giveArgs, args => pure (.list args)
  | giveArg index, args => pure (args[index]?.getD .null)
  | sumArgs, args => pure (.int (sumInts args))
  | get path, _ => Instance.get path
  | has path, _ => do return .bool (← Instance.has path)
  | call path, args => Instance.call eval path args
  | set name v, _ => do
      Instance.set name v
      return .null
  | phase, _ => do
      let i ← Act.state
      return .str i.phase.name
  | bootstrap, _ => do
      Instance.bootstrap eval
      return .null
  | expect path v, _ => do
      let found ← Instance.get path
      if found.same v then return .bool true
      else
        Act.fail (.other ("expected " ++ path ++ " to be " ++ v.describe ++ ", got "
          ++ found.describe))
  | confirm path v, _ => do
      let found ← Instance.get path
      if found.same v then return .null
      else Act.fail (.developer (.unexpectedAttribute path v.display found.display))
  | raise e, _ => Act.fail e
  | log line, args => do
      Instance.write (logLine line args)
      return .null
  | say line, _ => do
      Instance.write line
      return .null
  | sayArg line index, args => do
      let v := args[index]?.getD .null
      Instance.write (line ++ v.display)
      return v
  | andThen first second, args => do
      let _ ← evaluate eval first args
      evaluate eval second args

end Script

/-- Runs native code that may call further native code, `depth` levels of it. -/
def evaluator : (depth : Nat) → Evaluator
  | 0 => ⟨Recipe.make, fun _ _ => Act.fail .tooDeep⟩
  | depth + 1 => ⟨Recipe.make, Script.evaluate (evaluator depth)⟩

/-- The depth to which calls are followed. -/
def callDepth : Nat := 1000

/-- How native code is run. -/
def native : Evaluator := evaluator callDepth

end AppAssembly
