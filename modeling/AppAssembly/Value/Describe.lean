import AppAssembly.Value.Basic
import AppAssembly.Decimal.Shortest

/-!
# Describing values

The text a value is shown as in messages. Strings are quoted, and objects and callables are named
in angle brackets.
-/

namespace AppAssembly

/-- An object as a message names it. -/
def Obj.describe (o : Obj) : String :=
  "<" ++ o.typeName ++ " object>"

namespace Value

mutual

/-- The text of a value in messages. -/
def describe : Value → String
  | null => "null"
  | bool b => if b then "true" else "false"
  | int n => toString n
  | float x => Decimal.FloatStyle.plain.render x
  | str s => "'" ++ s ++ "'"
  | list items => "[" ++ ", ".intercalate (describeAll items) ++ "]"
  | object o => o.describe
  | callable c => "<callable " ++ c.name ++ ">"
  | method receiver name => "<method " ++ receiver.typeName ++ "." ++ name ++ ">"
  | factory f => "<factory " ++ f.name ++ ">"

def describeAll : List Value → List String
  | [] => []
  | v :: vs => describe v :: describeAll vs

end

/-- The text of a value for readers: a string stands for itself. -/
def display : Value → String
  | str s => s
  | v => v.describe

end Value

end AppAssembly
