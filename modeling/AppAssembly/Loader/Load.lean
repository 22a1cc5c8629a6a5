import AppAssembly.Compile
import AppAssembly.Document.Format
import AppAssembly.Loader.Catalog

/-!
# Loading documents

The types of a document are compiled one after the other and registered, each on top of types that
are registered already. When one fails, those before it stay registered.
-/

namespace AppAssembly

/-- The registered types, and the identity of the next layer. -/
structure Library where
  registry : TypeRegistry := {}
  nextLayer : Nat := 0

/-- What documents are loaded with. -/
structure Loader where
  handlers : HandlerRegistry := .builtIn
  catalog : Catalog := {}

namespace Catalog

mutual

/-- The value that a raw value stands for. A table has one field, which names a factory or
callable or says that a value is suppressed. -/
def value (c : Catalog) : RawValue → Except Error Value
  | .null => .ok .null
  | .bool b => .ok (.bool b)
  | .integer n => .ok (if RawValue.fits 63 n then .int n else .float (Decimal.ofInt n))
  | .float x => .ok (.float x)
  | .str s => .ok (.str s)
  | .list items => (values c items).map .list
  | .table [("factory", .str name)] => (c.factory name).map .factory
  | .table [("callable", .str name)] => (c.callable name).map .callable
  | .table [("suppress", .bool true)] => .ok .null
  | .table fields => .error (.config (.unsupportedTable (Json.compact (.table fields))))

/-- The values that several raw values stand for, up to the first failure. -/
def values (c : Catalog) : List RawValue → Except Error (List Value)
  | [] => .ok []
  | raw :: rest => do
      let v ← value c raw
      return v :: (← values c rest)

end

/-- The value of an entry of a block. The main type may be given by its name alone. -/
def entryValue (c : Catalog) (key : String) (raw : RawValue) : Except Error Value :=
  match Flag.ofKey? key, raw with
  | some .mainType, .str name => (c.factory name).map .factory
  | _, raw => c.value raw

/-- Adds the entries of a block in order. -/
def addEntries (c : Catalog) (b : Block) : Entries String RawValue → Except Error Block
  | [] => .ok b
  | (key, raw) :: rest => do
      let v ← c.entryValue key raw
      addEntries c (b.entry key v) rest

/-- Adds the blocks of a type in order. -/
def addBlocks (c : Catalog) (spec : TypeSpec) :
    Entries String (Entries String RawValue) → Except Error TypeSpec
  | [] => .ok spec
  | (identity, entries) :: rest => do
      let b ← c.addEntries { identity, location := spec.location } entries
      addBlocks c (spec.block b) rest

/-- Adds the members of a type in order. -/
def addMembers (c : Catalog) (spec : TypeSpec) : Entries String RawValue → Except Error TypeSpec
  | [] => .ok spec
  | (name, raw) :: rest => do
      let v ← c.value raw
      addMembers c (spec.member name v) rest

/-- The specification that a document describes. Without a location of its own, a type was written
in the file of the document. -/
def typeSpec (c : Catalog) (file : Option String) (doc : TypeDocument) : Except Error TypeSpec := do
  let location := (doc.location.map Location.parse).or (file.map fun file => ⟨file, none⟩)
  let spec ← c.addBlocks { name := doc.name, location } doc.blocks
  c.addMembers spec doc.members

end Catalog

namespace Loader

def loadType (l : Loader) (file : Option String) (doc : TypeDocument) :
    Act Library CompiledType := do
  let library ← Act.state
  if library.registry.contains doc.name then Act.fail (.config (.declaredTwice doc.name))
  else do
    let bases ← Act.ofExcept (doc.bases.mapM library.registry.get)
    let spec ← Act.ofExcept (l.catalog.typeSpec file doc)
    Act.modify fun library => { library with nextLayer := library.nextLayer + 1 }
    let t ← Act.ofExcept (compile l.handlers library.nextLayer spec bases)
    let registry ← Act.ofExcept (library.registry.register t)
    Act.modify fun library => { library with registry }
    return t

/-- Loads the types of a document in order, up to the first failure. -/
def loadDocument (l : Loader) (file : Option String) (doc : SpecDocument) :
    Act Library (List CompiledType) :=
  Act.mapList doc.types (l.loadType file)

def loadText (l : Loader) (format : Format) (file : Option String) (text : String) :
    Act Library (List CompiledType) := do
  let doc ← Act.ofExcept (SpecDocument.read format text)
  l.loadDocument file doc

def loadFile (l : Loader) (path : String) (contents : FileContents) :
    Act Library (List CompiledType) := do
  let doc ← Act.ofExcept (SpecDocument.ofFile path contents)
  l.loadDocument (some path) doc

end Loader

end AppAssembly
