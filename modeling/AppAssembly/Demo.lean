import AppAssembly.Loader.Load

/-!
# Demo applications

Toy components and three types assembled from them: `App` wires up everything behind a strategy
that does nothing, `DifferentApp` has one that hands over to an action, and `BetterApp` supplies
this action.
-/

namespace AppAssembly.Demo

/-- Where everything here was written. -/
def builtIn : Location := ⟨"<builtin>", none⟩

/-- A factory of objects of a type with the factory's name. -/
def toy (tag : Nat) (name : String) (methods : List (String × Script)) : Factory where
  tag := .given tag
  name := name
  params := []
  requires := []
  location := some builtIn
  recipe := .object name [] methods

/-- Says a line when it is installed. -/
def installer (tag : Nat) (name line : String) : Factory :=
  toy tag name [("install", .say line)]

def sigtermStop : Factory := installer 0 "SigTermStop" "installing sigterm stop"

def basicGenie : Factory := installer 1 "BasicGenie" "installing genie"

def backgroundTasks : Factory := installer 2 "BackGroundTasks" "installing background tasks"

def logger : Factory := toy 3 "Logger" []

def proctitle : Factory :=
  toy 4 "Proctitle" [("install", .say "installing proctitle"), ("get_title", .give (.str ""))]

def cli : Factory := toy 5 "Cli" [("get_parser", .give .null)]

/-- A strategy whose runner does nothing. -/
def empty : Factory := toy 6 "Empty" [("runner", .give .null)]

/-- A strategy whose runner hands over to the application's action. -/
def utility : Factory where
  tag := .given 7
  name := "Utility"
  params := [⟨"log_finish", some (.bool true)⟩, ⟨"log_startup", some (.bool true)⟩]
  requires := ["action"]
  location := some builtIn
  recipe := .switch "log_finish" (.switch "log_startup"
    (.object "Utility" [] [("runner", .call "action")]))

def action : Callable where
  tag := .given 8
  name := "action"
  requires := ["components.blah"]
  checker := false
  location := some builtIn
  body := .sayArg "joy to the world! : " 0

/-- Checks that `one` is 1. -/
def checkOne : Callable where
  tag := .given 9
  name := "check_one"
  requires := []
  checker := true
  location := some builtIn
  body := .confirm "one" (.int 1)

/-- Every toy under the name that documents use for it. -/
def catalog : Catalog :=
  ([logger, proctitle, sigtermStop, basicGenie, backgroundTasks, cli, utility, empty].foldl
    Catalog.addFactory {}).addCallable action

/-- A block with entries and perhaps a main type. -/
def block (identity : String) (entries : List (String × Value))
    (mainType : Option Factory := none) : Block :=
  { identity, entries := Entries.ofPairs entries, mainType, location := some builtIn }

def app : TypeSpec where
  name := "App"
  location := some builtIn
  blocks := [
    block "Genie" [] (some basicGenie),
    block "Strategy" [] (some empty),
    block "Attrs" [("one", .int 1)],
    block "Checkers" [("check_one", .callable checkOne)],
    block "Components" [("cli", .factory cli), ("logging", .factory logger),
      ("proctitle", .factory proctitle), ("sigtermstop", .factory sigtermStop),
      ("backgroundtasks", .factory backgroundTasks)],
    block "Methods" [("runner", .str "strategy.runner"),
      ("get_title", .str "components.proctitle.get_title"),
      ("get_parser", .str "components.cli.get_parser")],
    block "Install" [("genie", .str "genie"), ("sigterm", .str "components.sigtermstop"),
      ("proctitle", .str "components.proctitle")]]

def differentApp : TypeSpec where
  name := "DifferentApp"
  location := some builtIn
  blocks := [
    block "Strategy" [] (some utility),
    block "Components" [("blah", .int 3)],
    block "Install" [("genie", .null)]]

def betterApp : TypeSpec :=
  TypeSpec.method { name := "BetterApp", location := some builtIn } action

def add (spec : TypeSpec) (bases : List CompiledType) : Act Library CompiledType := do
  let library ← Act.state
  let t ← Act.ofExcept (compile .builtIn library.nextLayer spec bases)
  let registry ← Act.ofExcept (library.registry.register t)
  Act.modify fun library => ⟨registry, library.nextLayer + 1⟩
  return t

def load : Act Library Unit := do
  let app ← add app []
  let different ← add differentApp [app]
  let _ ← add betterApp [different]

end AppAssembly.Demo
