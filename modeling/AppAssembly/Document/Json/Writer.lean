import AppAssembly.Decimal.Shortest
import AppAssembly.Document.Raw

/-!
# Writing JSON

On one line without spaces, or on several lines with two spaces for each level.
-/

namespace AppAssembly.Json

/-- The digit of a number below sixteen. -/
def hexDigit (n : Nat) : Char :=
  (Nat.toDigits 16 n).headD '0'

def escape (c : Char) : List Char :=
  if c = '"' then ['\\', '"']
  else if c = '\\' then ['\\', '\\']
  else if c = '\x08' then ['\\', 'b']
  else if c = '\x0c' then ['\\', 'f']
  else if c = '\n' then ['\\', 'n']
  else if c = '\r' then ['\\', 'r']
  else if c = '\t' then ['\\', 't']
  else if c < ' ' then ['\\', 'u', '0', '0', hexDigit (c.toNat / 16), hexDigit (c.toNat % 16)]
  else [c]

def quote (s : String) : String :=
  String.ofList ('"' :: s.toList.flatMap escape ++ ['"'])

def scalarText : RawValue → String
  | .bool b => if b then "true" else "false"
  | .integer n => toString n
  | .float x => Decimal.FloatStyle.document.render x
  | .str s => quote s
  | _ => "null"

mutual

def compact : RawValue → String
  | .list items => "[" ++ ",".intercalate (compactAll items) ++ "]"
  | .table fields => "\x7b" ++ ",".intercalate (compactFields fields) ++ "\x7d"
  | v => scalarText v

def compactAll : List RawValue → List String
  | [] => []
  | v :: rest => compact v :: compactAll rest

def compactFields : List (String × RawValue) → List String
  | [] => []
  | (key, v) :: rest => (quote key ++ ":" ++ compact v) :: compactFields rest

end

def lineStart (level : Nat) : String :=
  "\n" ++ String.ofList (List.replicate (2 * level) ' ')

/-- Parts between brackets, one on each line. -/
def enclose (level : Nat) (opening closing : String) (parts : List String) : String :=
  if parts.isEmpty then opening ++ closing
  else
    opening ++ ",".intercalate (parts.map (lineStart (level + 1) ++ ·)) ++ lineStart level
      ++ closing

mutual

def prettyAt (level : Nat) : RawValue → String
  | .list items => enclose level "[" "]" (prettyAll (level + 1) items)
  | .table fields => enclose level "\x7b" "\x7d" (prettyFields (level + 1) fields)
  | v => scalarText v

def prettyAll (level : Nat) : List RawValue → List String
  | [] => []
  | v :: rest => prettyAt level v :: prettyAll level rest

def prettyFields (level : Nat) : List (String × RawValue) → List String
  | [] => []
  | (key, v) :: rest => (quote key ++ ": " ++ prettyAt level v) :: prettyFields level rest

end

def pretty (v : RawValue) : String :=
  prettyAt 0 v

end AppAssembly.Json
