import AppAssembly.Document.Json.Writer
import AppAssembly.Document.Yaml.Reader

/-!
# Writing YAML

Values are written on one line, with collections in brackets and every text in double quotes.
-/

namespace AppAssembly.Yaml

def code (n : Nat) : List Char :=
  [n / 4096 % 16, n / 256 % 16, n / 16 % 16, n % 16].map Json.hexDigit

/-- A character inside double quotes. What can't stand in a document is written with its code. -/
def escape (c : Char) : List Char :=
  if c = '"' then ['\\', '"']
  else if c = '\\' then ['\\', '\\']
  else if c = '\n' then ['\\', 'n']
  else if c = '\r' then ['\\', 'r']
  else if c = '\t' then ['\\', 't']
  else if isAllowed c && c.toNat ∉ [0x85, 0x2028, 0x2029] then [c]
  else '\\' :: 'u' :: code c.toNat

def quote (s : String) : String :=
  String.ofList ('"' :: s.toList.flatMap escape ++ ['"'])

def scalarText : RawValue → String
  | .str s => quote s
  | v => Json.scalarText v

mutual

def write : RawValue → String
  | .list items => "[" ++ ", ".intercalate (writeAll items) ++ "]"
  | .table fields => "\x7b" ++ ", ".intercalate (writeFields fields) ++ "\x7d"
  | v => scalarText v

def writeAll : List RawValue → List String
  | [] => []
  | v :: rest => write v :: writeAll rest

def writeFields : List (String × RawValue) → List String
  | [] => []
  | (key, v) :: rest => (quote key ++ ": " ++ write v) :: writeFields rest

end

end AppAssembly.Yaml
