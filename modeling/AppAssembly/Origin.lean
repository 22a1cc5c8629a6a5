import AppAssembly.Text.Blank
import AppAssembly.Text.Split
import AppAssembly.Decimal.Digits

/-!
# Locations and origins

Every block, member and callable remembers where it was written, so that an error can name the
declaration behind it. A location is a file with an optional line, written `file:line`; an origin
is the label of a declaration with an optional location.
-/

namespace AppAssembly

/-- A file and, if known, a line number. -/
structure Location where
  file : String
  line : Option UInt32
deriving DecidableEq, Repr

namespace Location

/-- The written form: `file:line`, or the file alone. -/
def display (l : Location) : String :=
  match l.line with
  | some n => l.file ++ ":" ++ String.ofList (Decimal.digits n.toNat)
  | none => l.file

/-- A line number: blanks around it and a plus sign in front of the digits are allowed. -/
def readLine? (cs : List Char) : Option UInt32 :=
  let digits :=
    match Text.trim cs with
    | '+' :: rest => rest
    | rest => rest
  match Decimal.read? digits with
  | some n => if n < UInt32.size then some (UInt32.ofNat n) else none
  | none => none

/-- Reads the written form. What follows the last colon is the line if it is a line number;
otherwise the whole text is the file. -/
def parse (text : String) : Location :=
  match Text.splitLast? ':' text.toList with
  | some (file, line) =>
      match readLine? line with
      | some n => ⟨String.ofList file, some n⟩
      | none => ⟨text, none⟩
  | none => ⟨text, none⟩

end Location

/-- The declaration that answers for an attribute, requirement or installer. -/
structure Origin where
  label : String
  location : Option Location
deriving DecidableEq, Repr

namespace Origin

/-- A block declared on a type. -/
def declaration (typeName block : String) (location : Option Location) : Origin :=
  ⟨typeName ++ "." ++ block, location⟩

/-- A type as a whole. -/
def ofType (typeName : String) (location : Option Location) : Origin :=
  ⟨typeName, location⟩

/-- A member declared by hand on a type. -/
def member (typeName name : String) (location : Option Location) : Origin :=
  ⟨typeName ++ "::" ++ name, location⟩

/-- The origin of what nobody declared. -/
def unknown : Origin := ⟨"Unknown", none⟩

/-- The label, and where it was written if that is known. -/
def display (o : Origin) : String :=
  match o.location with
  | some l => o.label ++ " at " ++ l.display
  | none => o.label

end Origin

end AppAssembly
