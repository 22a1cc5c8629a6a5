import AppAssembly.Document.Json.Writer
import AppAssembly.Document.Toml.Reader

/-!
# Writing TOML

Plain fields come first, then tables under headers of their own. There is no null, and a whole
number has at most 64 bits with its sign; a field without value is left out only where the
document allows it to be missing.
-/

namespace AppAssembly.Toml

def escape (c : Char) : List Char :=
  if c = '"' then ['\\', '"']
  else if c = '\\' then ['\\', '\\']
  else if isAllowed c && c ≠ '\t' then [c]
  else '\\' :: 'u' :: '0' :: '0' ::
    [Json.hexDigit (c.toNat / 16 % 16), Json.hexDigit (c.toNat % 16)]

def quote (s : String) : String :=
  String.ofList ('"' :: s.toList.flatMap escape ++ ['"'])

def keyText (path : List String) : String :=
  ".".intercalate (path.map quote)

mutual

/-- A value on one line, if TOML has it. -/
def inline? : RawValue → Option String
  | .null => none
  | .integer n => if RawValue.fits 63 n then some (toString n) else none
  | .str s => some (quote s)
  | .list items => (inlineAll? items).map fun texts => "[" ++ ", ".intercalate texts ++ "]"
  | .table fields =>
      (inlineFields? fields).map fun texts => "\x7b" ++ ", ".intercalate texts ++ "\x7d"
  | .bool b => some (if b then "true" else "false")
  | .float x => some (Decimal.FloatStyle.document.render x)

def inlineAll? : List RawValue → Option (List String)
  | [] => some []
  | v :: rest => do
      let text ← inline? v
      return text :: (← inlineAll? rest)

def inlineFields? : List (String × RawValue) → Option (List String)
  | [] => some []
  | (key, v) :: rest => do
      let text ← inline? v
      return (quote key ++ " = " ++ text) :: (← inlineFields? rest)

end

def isTable : RawValue → Bool
  | .table _ => true
  | _ => false

/-- Whether a value is written under headers. -/
def hasHeader : RawValue → Bool
  | .table _ => true
  | .list items => !items.isEmpty && items.all isTable
  | _ => false

mutual

/-- The lines of the fields without headers. -/
def plainLines? : List (String × RawValue) → Option (List String)
  | [] => some []
  | (key, v) :: rest =>
      if hasHeader v then plainLines? rest
      else do
        let text ← inline? v
        return (quote key ++ " = " ++ text) :: (← plainLines? rest)

/-- The lines of a table or list of tables under its headers. -/
def headerLines? (path : List String) : RawValue → Option (List String)
  | .table fields => do
      let plain ← plainLines? fields
      return ("[" ++ keyText path ++ "]") :: plain ++ (← nestedLines? path fields)
  | .list items => elementLines? path items
  | _ => some []

/-- The lines of several tables, each under a header. -/
def elementLines? (path : List String) : List RawValue → Option (List String)
  | [] => some []
  | .table fields :: rest => do
      let plain ← plainLines? fields
      let nested ← nestedLines? path fields
      return ("[[" ++ keyText path ++ "]]") :: plain ++ nested ++ (← elementLines? path rest)
  | _ :: rest => elementLines? path rest

/-- The lines of the fields that have headers. -/
def nestedLines? (path : List String) : List (String × RawValue) → Option (List String)
  | [] => some []
  | (key, v) :: rest => do
      let lines ← if hasHeader v then headerLines? (path ++ [key]) v else some []
      return lines ++ (← nestedLines? path rest)

end

/-- The text of a table, if TOML has all its values. -/
def write? (fields : List (String × RawValue)) : Option String := do
  let plain ← plainLines? fields
  let nested ← nestedLines? [] fields
  return String.join ((plain ++ nested).map (· ++ "\n"))

end AppAssembly.Toml
