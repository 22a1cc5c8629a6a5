import AppAssembly.Value.Describe

/-!
# Keyword arguments of a factory

A factory names its parameters, some with a default. Binding checks the keyword arguments of a
call against them and puts the values into the order of the parameters.
-/

namespace AppAssembly

/-- Keyword arguments that don't fit the parameters of a factory. -/
inductive ArgumentError where
  | unexpected (factory name : String)
  | missing (factory name : String)
deriving DecidableEq, Repr

def ArgumentError.message : ArgumentError → String
  | unexpected factory name => factory ++ "() got an unexpected keyword argument '" ++ name ++ "'"
  | missing factory name => factory ++ "() missing required argument '" ++ name ++ "'"

/-- A parameter as a signature shows it. -/
def Param.describe (p : Param) : String :=
  match p.default? with
  | some v => p.name ++ "=" ++ v.describe
  | none => p.name

namespace Factory

/-- The name with its parameters, such as `Name(a, b=1)`. -/
def signature (f : Factory) : String :=
  f.name ++ "(" ++ ", ".intercalate (f.params.map Param.describe) ++ ")"

/-- The value a parameter gets: the supplied one, or else its default. -/
def argument? (kwargs : Kwargs) (p : Param) : Option Value :=
  (kwargs.get? p.name).or p.default?

/-- Adds the values of the parameters, in order, to those bound before; on failure, gives the
first parameter without a value. -/
def bindParams (kwargs bound : Kwargs) : List Param → Except String Kwargs
  | [] => .ok bound
  | p :: rest =>
      match argument? kwargs p with
      | some v => bindParams kwargs (bound.insert p.name v) rest
      | none => .error p.name

/-- Whether a keyword is the name of a parameter. -/
def accepts (f : Factory) (keyword : String) : Bool :=
  f.params.any fun p => p.name == keyword

/-- Checks keyword arguments against the parameters and fills in the defaults. -/
def bind (f : Factory) (kwargs : Kwargs) : Except ArgumentError Kwargs :=
  match kwargs.keys.find? fun keyword => !f.accepts keyword with
  | some keyword => .error (.unexpected f.name keyword)
  | none =>
      match bindParams kwargs [] f.params with
      | .ok bound => .ok bound
      | .error name => .error (.missing f.name name)

end Factory

end AppAssembly
