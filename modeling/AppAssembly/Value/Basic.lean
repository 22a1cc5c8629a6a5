import AppAssembly.Entries.Basic
import AppAssembly.Error.Basic
import AppAssembly.Decimal.Nearest

/-!
# Values

What an attribute or a block entry holds: plain data, objects with attributes and methods, and
things that can be called. Native code is a script, a small program over the instance it is called
on; what a factory makes is a recipe. Objects, callables and factories carry a tag, and two of
them are the same thing exactly if their tags are equal.
-/

namespace AppAssembly

/-- The identity of an object, callable or factory. -/
inductive Tag where
  /-- Made before anything was compiled. -/
  | given (n : Nat)
  /-- Built by a factory, the `n`-th of its workshop. -/
  | built (n : Nat)
  /-- The stand-in for a suppressed attribute of a layer. -/
  | suppression (layer : Nat) (name : String)
deriving DecidableEq, Repr

mutual

/-- What an attribute or a block entry holds. -/
inductive Value where
  | null
  | bool (b : Bool)
  | int (n : Int)
  | float (x : Float)
  | str (s : String)
  | list (items : List Value)
  | object (o : Obj)
  | callable (c : Callable)
  /-- A method of an object, with the object it belongs to. -/
  | method (receiver : Obj) (name : String)
  | factory (f : Factory)

/-- Anything with named attributes and methods. -/
structure Obj where
  tag : Tag
  typeName : String
  attrs : List (String × Value)
  methods : List (String × Script)

/-- A named piece of native code. The paths in `requires` are resolved on every call and come
before the arguments of the caller. -/
structure Callable where
  tag : Tag
  name : String
  requires : List String
  /-- Whether it takes part in the sanity check. -/
  checker : Bool
  location : Option Location
  body : Script

/-- A parameter of a factory, with its default if it has one. -/
structure Param where
  name : String
  default? : Option Value

/-- A constructible type. -/
structure Factory where
  tag : Tag
  name : String
  params : List Param
  /-- Paths that the made object needs on its instance. -/
  requires : List String
  location : Option Location
  recipe : Recipe

/-- What native code does with its instance and its arguments. -/
inductive Script where
  /-- Returns a value. -/
  | give (v : Value)
  /-- Returns the list of arguments. -/
  | giveArgs
  /-- Returns the argument at a position, or null. -/
  | giveArg (index : Nat)
  /-- Returns the sum of the integers among the arguments. -/
  | sumArgs
  | get (path : String)
  | has (path : String)
  /-- Calls what a path leads to, with the same arguments. -/
  | call (path : String)
  | set (name : String) (v : Value)
  /-- Returns the name of the instance's phase. -/
  | phase
  | bootstrap
  /-- Fails unless a path leads to the value. -/
  | expect (path : String) (v : Value)
  /-- Fails with a report to the developer unless a path leads to the value. -/
  | confirm (path : String) (v : Value)
  | raise (e : Error)
  /-- Writes a line with the arguments in parentheses into the journal. -/
  | log (line : String)
  /-- Writes a line into the journal. -/
  | say (line : String)
  /-- Writes a line that ends with an argument into the journal. -/
  | sayArg (line : String) (index : Nat)
  /-- Runs one script and, if it succeeds, the other with the same arguments. -/
  | andThen (first second : Script)

/-- What a factory makes of its bound keyword arguments. -/
inductive Recipe where
  /-- Always the same value. -/
  | constant (v : Value)
  /-- The value of a keyword argument, or null. -/
  | kwarg (name : String)
  /-- The keyword arguments as a list of pairs. -/
  | kwargs
  /-- A new object, whose attributes are the given ones and then the keyword arguments. -/
  | object (typeName : String) (attrs : List (String × Value)) (methods : List (String × Script))
  | fail (message : String)
  /-- Writes a line into the journal first. -/
  | log (line : String) (next : Recipe)
  /-- Takes a keyword argument as a switch, which is on unless it is set to `false`. -/
  | switch (name : String) (next : Recipe)

end

abbrev Kwargs := Entries String Value

instance : Inhabited Value := ⟨.null⟩

/-- Runs the scripts one after the other; nothing to run gives null. -/
def Script.sequence : List Script → Script
  | [] => .give .null
  | [s] => s
  | s :: rest => .andThen s (sequence rest)

namespace Value

/-- The name of the kind of a value. -/
def kind : Value → String
  | null => "null"
  | bool _ => "bool"
  | int _ => "int"
  | float _ => "float"
  | str _ => "str"
  | list _ => "list"
  | object _ => "object"
  | callable _ => "callable"
  | method _ _ => "method"
  | factory _ => "factory"

def isNull : Value → Bool
  | null => true
  | _ => false

/-- Whether calling the value can succeed. -/
def isCallable : Value → Bool
  | callable _ | method _ _ | factory _ => true
  | _ => false

def str? : Value → Option String
  | str s => some s
  | _ => none

def int? : Value → Option Int
  | int n => some n
  | _ => none

def bool? : Value → Option Bool
  | bool b => some b
  | _ => none

/-- The number, if the value is one. -/
def float? : Value → Option Float
  | float x => some x
  | int n => some (Decimal.ofInt n)
  | _ => none

def list? : Value → Option (List Value)
  | list items => some items
  | _ => none

def object? : Value → Option Obj
  | object o => some o
  | _ => none

def callable? : Value → Option Callable
  | callable c => some c
  | _ => none

def factory? : Value → Option Factory
  | factory f => some f
  | _ => none

/-- The paths that have to resolve before the value is called. -/
def requiredPaths : Value → List String
  | callable c => c.requires
  | _ => []

end Value

namespace Callable

/-- The origin of a callable is its own definition. -/
def origin (c : Callable) : Origin :=
  ⟨"callable '" ++ c.name ++ "'", c.location⟩

/-- The stand-in for an inherited attribute that a layer nulled out: it refuses to be called. -/
def notImplemented (layer : Nat) (identity : String) (origin : Origin) : Callable where
  tag := .suppression layer identity
  name := identity
  requires := []
  checker := false
  location := origin.location
  body := .raise (.notImplemented identity origin)

end Callable

namespace Obj

/-- The attribute or method under a name; an attribute hides a method. -/
def lookup (o : Obj) (name : String) : Option Value :=
  match Entries.get? o.attrs name with
  | some v => some v
  | none => if Entries.contains o.methods name then some (.method o name) else none

end Obj

/-- What stands under a name of a value; only objects have anything. -/
def Value.lookup (v : Value) (name : String) : Option Value :=
  match v with
  | .object o => o.lookup name
  | _ => none

end AppAssembly
