import AppAssembly.Document.Json.Reader
import AppAssembly.Document.Json.Writer
import AppAssembly.Document.Spec
import AppAssembly.Document.Toml.Writer
import AppAssembly.Document.Yaml.Writer
import AppAssembly.Text.Lowercase
import AppAssembly.Text.Split

/-!
# Document formats

A document is written in JSON, YAML or TOML; the extension of a file says in which.
-/

namespace AppAssembly

/-- The formats of a document. -/
inductive Format where
  | json
  | yaml
  | toml
deriving DecidableEq, Repr

namespace Format

/-- The name of a format in messages. -/
def name : Format → String
  | json => "JSON"
  | yaml => "YAML"
  | toml => "TOML"

/-- The usual extension of a file in this format. -/
def extension : Format → String
  | json => "json"
  | yaml => "yaml"
  | toml => "toml"

/-- The format with an extension, in any case. -/
def ofExtension? (extension : String) : Option Format :=
  match Text.lowercase extension with
  | "json" => some json
  | "yaml" | "yml" => some yaml
  | "toml" => some toml
  | _ => none

/-- The last part of a path that names a file: slashes at the end and parts that stay in the same
directory don't count. -/
def fileName? (path : String) : Option (List Char) :=
  let (first, rest) := Text.splitAt '/' path.toList
  match ((first :: rest).filter fun part => part ≠ [] && part ≠ ['.']).getLast? with
  | some name => if name = ['.', '.'] then none else some name
  | none => none

/-- The text behind the last dot of a file name. A dot at its start does not count. -/
def extensionOf? (path : String) : Option String := do
  let name ← fileName? path
  let (stem, extension) ← Text.splitLast? '.' name
  if stem.isEmpty then none else some (String.ofList extension)

/-- The format of a file, by its extension. -/
def ofPath? (path : String) : Option Format :=
  (extensionOf? path).bind ofExtension?

/-- How the format reads nodes. A list of TOML may be longer than a record has fields, and its
reader limits the nesting itself. -/
def rules : Format → SpecDocument.Rules
  | json => ⟨some 127, false⟩
  | yaml => ⟨some 128, false⟩
  | toml => ⟨none, true⟩

/-- The node that a text stands for. -/
def node? : Format → String → Option Node
  | json => Json.read?
  | yaml => Yaml.read?
  | toml => Toml.read?

end Format

/-- What a file holds, if it could be read. -/
inductive FileContents where
  | missing
  /-- Bytes that are no text. -/
  | notText
  | text (s : String)

namespace SpecDocument

def read (format : Format) (text : String) : Except Error SpecDocument :=
  let outcome :=
    match format.node? text with
    | some node => ofNode format.rules node
    | none => .error "not well formed"
  outcome.mapError fun reason => .config (.malformed format.name reason)

/-- The fields of a table that have a value, where a field may be missing. -/
def presentFields (fields : List (String × RawValue)) : List (String × RawValue) :=
  fields.filter fun (_, v) =>
    match v with
    | .null => false
    | _ => true

/-- A type without the fields that are missing. -/
def presentType : RawValue → RawValue
  | .table fields => .table (presentFields fields)
  | v => v

def write (format : Format) (d : SpecDocument) : Except Error String :=
  match format with
  | .json => .ok (Json.pretty d.toRaw)
  | .yaml => .ok (Yaml.write d.toRaw)
  | .toml =>
      match Toml.write? [("types", .list (d.types.map fun t => presentType (typeTable t)))] with
      | some text => .ok text
      | none => .error (.config (.unwritable format.name "a value has no written form"))

/-- Reads a file, in the format that its extension names. -/
def ofFile (path : String) (contents : FileContents) : Except Error SpecDocument :=
  match Format.ofPath? path with
  | none => .error (.config (.unsupportedExtension path))
  | some format =>
      match contents with
      | .missing => .error (.io "read_spec_document" path "No such file or directory (os error 2)")
      | .notText => .error (.io "read_spec_document" path "stream did not contain valid UTF-8")
      | .text s => read format s

end SpecDocument

end AppAssembly
