import AppAssembly.Demo
import AppAssembly.Instance.Evaluate

/-!
# The command line

`run` bootstraps a type and runs it, `describe` shows how it was assembled, and `list` names the
types there are. Types come from a document or, without one, from the demo.
-/

namespace AppAssembly.CommandLine

/-- What is to be done. -/
inductive Command where
  | run (typeName : String)
  | describe (typeName : String)
  | list
  | version
deriving DecidableEq, Repr

/-- A command and the file that the types come from. -/
structure Invocation where
  command : Command
  spec : Option String := none
deriving DecidableEq, Repr

/-- What a command writes, and its exit status. -/
structure Outcome where
  status : Nat
  stdout : String
  stderr : String
deriving DecidableEq, Repr

/-! ## Arguments -/

/-- The options of a command. -/
structure Options where
  typeName : Option String := none
  spec : Option String := none

/-- An option together with its value, as in `--type=App`. -/
def assigned? (option argument : String) : Option String :=
  let start := (option ++ "=").toList
  let cs := argument.toList
  if cs.take start.length = start then some (String.ofList (cs.drop start.length)) else none

/-- Whether an argument only asks for more messages. -/
def isVerbose (argument : String) : Bool :=
  argument = "-v" || argument = "--verbose"

/-- Whether an argument can be the value of an option. -/
def isValue (argument : String) : Bool :=
  argument.toList.head? ≠ some '-' || argument = "-"

/-- Notes the name of a type; it may be given once. -/
def Options.withType (o : Options) (name : String) : Option Options :=
  if o.typeName.isNone then some { o with typeName := some name } else none

/-- Notes the path of a document; it may be given once and is not empty. -/
def Options.withSpec (o : Options) (path : String) : Option Options :=
  if o.spec.isNone && !path.isEmpty then some { o with spec := some path } else none

/-- Reads an argument that stands for itself. -/
def Options.read (o : Options) (argument : String) : Option Options :=
  match assigned? "--type" argument, assigned? "--spec" argument with
  | some name, _ => o.withType name
  | none, some path => o.withSpec path
  | none, none => if isVerbose argument then some o else none

/-- Reads arguments, of which some are options with their value behind them. -/
def Options.readAll (o : Options) : List String → Option Options
  | [] => some o
  | [argument] => o.read argument
  | argument :: v :: rest =>
      if argument = "--type" then
        if isValue v then (o.withType v).bind fun o => o.readAll rest else none
      else if argument = "--spec" then
        if isValue v then (o.withSpec v).bind fun o => o.readAll rest else none
      else (o.read argument).bind fun o => o.readAll (v :: rest)

/-- The type that is used unless another one is asked for. -/
def defaultType : String := "BetterApp"

/-- Reads the arguments of the command line. -/
def parse? (arguments : List String) : Option Invocation :=
  match arguments.dropWhile isVerbose with
  | [] => some ⟨.run defaultType, none⟩
  | command :: rest =>
      if command = "--version" || command = "-V" then some ⟨.version, none⟩
      else do
        let o ← Options.readAll {} rest
        let typeName := o.typeName.getD defaultType
        match command with
        | "run" => some ⟨.run typeName, o.spec⟩
        | "describe" => some ⟨.describe typeName, o.spec⟩
        | "list" => if o.typeName.isSome then none else some ⟨.list, o.spec⟩
        | _ => none

/-! ## Describing a type -/

/-- What stands under a name, in a few words. -/
def contentText : Content → String
  | .value v => v.kind
  | .delegate d => "delegate to " ++ d.path
  | .deferred => "built on bootstrap"

def memberLines (t : CompiledType) (name : String) : List String :=
  match t.member? name with
  | none => []
  | some (layer, member) =>
      ("    " ++ name ++ " (" ++ contentText member.content ++ ") from " ++ layer.name)
        :: (t.provenance name).removedBy.toList.map fun origin =>
          "      removed by " ++ origin.label

/-- The lines that show how a type was assembled. -/
def describeLines (t : CompiledType) : List String :=
  [t.name, "  layers: " ++ " -> ".intercalate (t.layers.map Layer.name), "  members:"]
    ++ t.memberNames.flatMap (memberLines t)
    ++ "  installers:" :: t.installers.map (fun i =>
        "    " ++ i.identity ++ " = " ++ i.path ++ " (" ++ i.origin.label ++ ")")
    ++ "  requirements:" :: t.requirements.map fun r =>
        "    " ++ r.identity ++ ": " ++ ", ".intercalate r.paths ++ " (" ++ r.origin.label ++ ")"

/-! ## Commands -/

def unlines (lines : List String) : String :=
  String.join (lines.map (· ++ "\n"))

/-- The outcome of a command that wrote some lines. -/
def outcome (lines : List String) : Except Error Unit → Outcome
  | .ok () => ⟨0, unlines lines, ""⟩
  | .error e => ⟨1, unlines lines, "Error: " ++ e.message ++ "\n"⟩

/-- The types of a file or of the demo. -/
def loadTypes (spec : Option String) (contents : FileContents) : Except Error TypeRegistry :=
  let load : Act Library Unit :=
    match spec with
    | some path => do
        let _ ← Loader.loadFile { catalog := Demo.catalog } path contents
    | none => Demo.load
  match load {} with
  | (.ok (), library) => .ok library.registry
  | (.error e, _) => .error e

/-- Bootstraps a type and runs it; what it says is written. -/
def runType (t : CompiledType) : Outcome :=
  let (r, i) := Instance.execute native (Instance.ofType t)
  outcome i.workshop.journal (r.map fun _ => ())

/-- Does what the command line asks for, given what its file holds. -/
def execute (invocation : Invocation) (contents : FileContents) : Outcome :=
  let types := loadTypes invocation.spec contents
  match invocation.command with
  | .version => ⟨0, "appspec 0.1.0\n", ""⟩
  | .list =>
      match types with
      | .ok registry => outcome registry.names (.ok ())
      | .error e => outcome [] (.error e)
  | .describe typeName =>
      match types.bind fun registry => registry.get typeName with
      | .ok t => outcome (describeLines t) (.ok ())
      | .error e => outcome [] (.error e)
  | .run typeName =>
      match types.bind fun registry => registry.get typeName with
      | .ok t => runType t
      | .error e => outcome [] (.error e)

/-- The outcome for arguments that can't be read. -/
def usage : Outcome :=
  ⟨2, "", "usage: appspec [-v] [run|describe|list] [--type NAME] [--spec FILE]\n"⟩

end AppAssembly.CommandLine
