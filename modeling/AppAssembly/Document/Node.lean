import AppAssembly.Document.Raw

/-!
# Nodes

A document is read into nodes, whatever its format is. What a scalar means depends on what it is
used for: a name, an optional text, or a value.
-/

namespace AppAssembly

/-- A node without parts. -/
structure Scalar where
  /-- What it says where a text is expected. -/
  text? : Option String
  /-- What it says where a value is expected. -/
  value? : Option RawValue
  /-- Whether it says nothing where a text is optional. -/
  absent : Bool := false
  /-- Whether it stands for an empty list or table. -/
  empty : Bool := false

/-- A document, or a part of one. -/
inductive Node where
  | scalar (s : Scalar)
  | list (items : List Node)
  /-- Fields in the order in which they are written; a key that is no text is `none`. -/
  | table (fields : List (Option String × Node))

def Scalar.quoted (s : String) : Scalar where
  text? := some s
  value? := some (.str s)

/-- A value that is no text. -/
def Scalar.plain (v : RawValue) : Scalar where
  text? := none
  value? := some v

end AppAssembly
