import AppAssembly.Error.Context

/-!
# Errors

Everything that goes wrong is a mistake in a declaration, in a document or in the order of calls;
nothing is retried. Each constructor is a cause and keeps what is needed to point at the
declaration behind it; the wording is in `Error.message`.
-/

namespace AppAssembly

/-- The stages of an instance's life, in order. -/
inductive Phase where
  | created
  | validated
  | installed
  | running
deriving DecidableEq, Repr

def Phase.name : Phase → String
  | .created => "Created"
  | .validated => "Validated"
  | .installed => "Installed"
  | .running => "Running"

/-- The steps that drive an instance through its life, in order. -/
inductive Step where
  | createThings
  | sanityCheck
  | install
  | run
deriving DecidableEq, Repr

namespace Step

/-- The name under which a step is called. -/
def name : Step → String
  | createThings => "create_things"
  | sanityCheck => "sanity_check"
  | install => "install"
  | run => "run"

/-- The phase an instance has to be in when a step is called. -/
def needs : Step → Phase
  | createThings | sanityCheck => .created
  | install => .validated
  | run => .installed

/-- The phase an instance is in once a step has begun. -/
def reaches : Step → Phase
  | createThings => .created
  | sanityCheck => .validated
  | install => .installed
  | run => .running

end Step

/-- What a dot-path was being used for. -/
inductive PathUse where
  /-- A requirement of a callable, a factory or a block. -/
  | requires
  /-- The target of a delegate. -/
  | delegateTo
  /-- An object to install. -/
  | installing
deriving DecidableEq, Repr

/-- The key under which the path is shown. -/
def PathUse.key : PathUse → String
  | .requires => "requires"
  | .delegateTo => "delegate_to"
  | .installing => "installing"

/-- A dot-path that could not be resolved. -/
structure NotFound where
  /-- The path that was asked for. -/
  path : String
  /-- What resolution started from. -/
  root : String
  /-- The segments that did resolve. -/
  found : List String
deriving DecidableEq, Repr

def NotFound.foundPath (n : NotFound) : String :=
  ".".intercalate n.found

/-- A declaration that breaks a rule. -/
inductive Misuse where
  /-- A delegate is needed to resolve itself. -/
  | selfReference (identity path : String) (origin : Origin)
  /-- A component or custom object could not be built. -/
  | construction (name calling callingWith signature reason : String) (origin : Origin)
  /-- Control flags of a block that can't be read. -/
  | invalidFlags (block : String) (problems : List String) (origin : Origin)
  /-- Two blocks of a type with the same lower-case name. -/
  | sameBlockName (typeName first second : String) (origin : Origin)
  /-- `extend = false` on a block that has to keep what it inherits. -/
  | cannotExtend (block : String) (origin : Origin)
  /-- `nullify_inherited` on a block that puts nothing on the type. -/
  | cannotNullify (block : String) (origin : Origin)
  /-- A custom object with no type to build it from. -/
  | missingMainType (block : String) (origin : Origin)
  /-- An entry of the wrong kind. -/
  | badEntry (block entry expected kind value : String) (origin : Origin)
  /-- Two installer blocks on one type. -/
  | installersTwice (origin first : Origin)
  /-- Two handlers for one block name. -/
  | handlerTwice (name : String)
  /-- Names that are already taken: who took each, and how the first was taken. -/
  | taken (label description : String) (names : List (String × Origin)) (origin : Origin)
  /-- A base named twice. -/
  | duplicateBase (typeName base : String)
  /-- No order of the layers agrees with all bases. -/
  | noConsistentOrder (typeName : String) (bases : List String)
  /-- An attribute with another value than a checker expects. -/
  | unexpectedAttribute (path expected found : String)
  /-- A mistake that native code reports in its own words. -/
  | reported (message : String) (context : Context) (source : Option String)
deriving DecidableEq, Repr

namespace Misuse

def quoted (names : List String) : String :=
  ", ".intercalate (names.map fun name => "'" ++ name ++ "'")

def message : Misuse → String
  | selfReference identity _ _ =>
      "Delegate '" ++ identity ++ "' refers back to itself while resolving"
  | construction name _ _ _ _ _ => "Failed to create custom object '" ++ name ++ "'"
  | invalidFlags block _ _ => "Invalid control flags on '" ++ block ++ "'"
  | sameBlockName typeName _ _ _ => "Blocks on '" ++ typeName ++ "' may not differ only by case"
  | cannotExtend block _ =>
      "'" ++ block ++ "' puts all its properties on the type being created, so extend doesn't make "
        ++ "sense here. Override inherited properties to do nothing, or something different, "
        ++ "instead"
  | cannotNullify block _ =>
      "'" ++ block ++ "' doesn't put its properties on the type being created. "
        ++ "Use extend = false to drop inherited entries instead"
  | missingMainType block _ => "Component " ++ block ++ " needs to have a mainType"
  | badEntry block _ expected kind _ _ =>
      "'" ++ block ++ "' entries must be " ++ expected ++ ", got " ++ kind
  | installersTwice _ _ => "Installers declared twice on the same type"
  | handlerTwice name => "Declaration for " ++ name ++ " specified twice"
  | taken label description names _ =>
      "Adding attributes [" ++ quoted (names.map Prod.fst) ++ "] from " ++ label ++ " but "
        ++ description
  | duplicateBase _ _ => "Duplicate base in type declaration"
  | noConsistentOrder _ _ => "Cannot create a consistent layer order for the given bases"
  | unexpectedAttribute path expected found =>
      "Expected " ++ path ++ " to be " ++ expected ++ ", got " ++ found
  | reported message _ _ => message

def context : Misuse → Context
  | selfReference identity path origin =>
      .ofOrigin origin [("delegate_to", path), ("identity", identity)]
  | construction _ calling callingWith signature reason origin =>
      .ofOrigin origin [("calling", calling), ("calling_with", callingWith),
        ("callee_signature", signature), ("error", reason)]
  | invalidFlags _ problems origin => .ofOrigin origin [("problems", "; ".intercalate problems)]
  | sameBlockName _ first second origin => .ofOrigin origin [("first", first), ("second", second)]
  | cannotExtend _ origin => .ofOrigin origin
  | cannotNullify _ origin => .ofOrigin origin
  | missingMainType _ origin => .ofOrigin origin
  | badEntry _ entry _ _ value origin => .ofOrigin origin [("entry", entry), ("value", value)]
  | installersTwice origin first => .ofOrigin origin [("first", first.display)]
  | handlerTwice _ => {}
  | taken _ _ names origin =>
      .ofOrigin origin (("conflicts", quoted (names.map Prod.fst))
        :: names.map fun (name, by_) => ("claimed_" ++ name, by_.display))
  | duplicateBase typeName base => .ofFields [("type", typeName), ("base", base)]
  | noConsistentOrder typeName bases =>
      .ofFields [("type", typeName), ("bases", ", ".intercalate bases)]
  | unexpectedAttribute _ _ _ => {}
  | reported _ context _ => context

/-- The error behind the mistake, if another one caused it. -/
def source? : Misuse → Option String
  | construction _ _ _ _ reason _ => some reason
  | reported _ _ source => source
  | _ => none

end Misuse

/-- A call that comes at the wrong point of an instance's life. -/
inductive Misstep where
  /-- A step that needs another phase. -/
  | needsPhase (step : Step)
  /-- The deferred objects exist already. -/
  | alreadyCreated
  /-- The deferred objects don't exist yet. -/
  | notCreated
  /-- A name that only bootstrap gives a value. -/
  | builtLater (name : String)
  /-- A complaint of native code. -/
  | reported (message : String)
deriving DecidableEq, Repr

def Misstep.message : Misstep → String
  | needsPhase step => step.name ++ " needs the instance to be " ++ step.needs.name
  | alreadyCreated => "Deferred objects were already created"
  | notCreated => "sanity_check needs create_things to have run"
  | builtLater name => "'" ++ name ++ "' is created during bootstrap and can't be set before it"
  | reported message => message

/-- A document, catalog or registry that can't be used as asked. -/
inductive ConfigFault where
  | unknownFactory (name : String)
  | unknownCallable (name : String)
  | alreadyRegistered (typeName : String)
  | unknownType (typeName : String) (known : List String)
  /-- A document declares a type that is registered already. -/
  | declaredTwice (typeName : String)
  /-- A table that stands for no value. -/
  | unsupportedTable (text : String)
  /-- A file whose extension names no document format. -/
  | unsupportedExtension (path : String)
  /-- A document that can't be read in its format. -/
  | malformed (format reason : String)
  /-- A document that can't be written in a format. -/
  | unwritable (format reason : String)
  /-- A complaint of native code. -/
  | reported (format message : String) (source : Option String)
deriving DecidableEq, Repr

namespace ConfigFault

/-- The part of the configuration that is at fault. -/
def area : ConfigFault → String
  | unknownFactory _ | unknownCallable _ => "catalog"
  | alreadyRegistered _ | unknownType _ _ => "registry"
  | declaredTwice _ | unsupportedTable _ => "document"
  | unsupportedExtension _ => "unknown"
  | malformed format _ | unwritable format _ | reported format _ _ => format

def message : ConfigFault → String
  | unknownFactory name => "No factory registered as '" ++ name ++ "'"
  | unknownCallable name => "No callable registered as '" ++ name ++ "'"
  | alreadyRegistered typeName => "Type '" ++ typeName ++ "' is already registered"
  | unknownType typeName known =>
      "Unknown type '" ++ typeName ++ "' (known: " ++ ", ".intercalate known ++ ")"
  | declaredTwice typeName => "Type '" ++ typeName ++ "' is declared more than once"
  | unsupportedTable text =>
      "Unsupported table value " ++ text
        ++ "; expected \x7bfactory\x7d, \x7bcallable\x7d or \x7bsuppress\x7d"
  | unsupportedExtension path => "Unsupported spec file extension: " ++ path
  | malformed _ reason => "Failed to parse spec document: " ++ reason
  | unwritable _ reason => "Failed to serialize spec document: " ++ reason
  | reported _ message _ => message

/-- The error behind the fault, if another one caused it. -/
def source? : ConfigFault → Option String
  | malformed _ reason => some reason
  | reported _ _ source => source
  | _ => none

end ConfigFault

/-- Why something could not be done. -/
inductive Error where
  /-- A dot-path failed to resolve. -/
  | pathNotFound (missing : NotFound)
  /-- A declaration breaks a rule. -/
  | developer (misuse : Misuse)
  /-- A path that a declaration needs could not be resolved. -/
  | requirement (use : PathUse) (missing : NotFound) (identity : String) (origin : Origin)
  /-- A path resolved to something that lacks an attribute. -/
  | requirementAttribute (use : PathUse) (path object needed identity : String)
      (origin : Origin)
  /-- Something that should be callable isn't. -/
  | unexpectedValue (identity value : String) (context : Context)
  /-- An inherited attribute was nulled out and then called. -/
  | notImplemented (identity : String) (origin : Origin)
  | notCallable (target kind : String)
  | noSuchMethod (object method : String)
  /-- A factory failed when it was called. -/
  | callFailed (target source : String)
  /-- A call at the wrong point of an instance's life. -/
  | lifecycle (phase : Phase) (misstep : Misstep)
  /-- A document, catalog or registry can't be used as asked. -/
  | config (fault : ConfigFault)
  /-- A file can't be read. -/
  | io (operation path source : String)
  /-- Calls are nested deeper than the interpreter follows them. -/
  | tooDeep
  | other (message : String)
deriving DecidableEq, Repr

namespace Error

def message : Error → String
  | pathNotFound missing =>
      "Couldn't find '" ++ missing.path ++ "' on " ++ missing.root ++ ", only resolved up to '"
        ++ missing.foundPath ++ "'"
  | developer misuse => misuse.context.report misuse.message
  | requirement use missing identity origin =>
      (Context.ofOrigin origin [(use.key, missing.path), ("root", missing.root),
        ("found", missing.foundPath), ("identity", identity)]).report
        "Requirement could not be resolved"
  | requirementAttribute use path object needed identity origin =>
      (Context.ofOrigin origin [(use.key, path), ("obj", object),
        ("requires_obj_attribute", needed), ("identity", identity)]).report
        "Requirement resolved but lacks a required attribute"
  | unexpectedValue identity value context =>
      context.report ("Expected '" ++ identity ++ "' to be callable, got " ++ value)
  | notImplemented identity origin =>
      "'" ++ identity ++ "' is not implemented\norigin='" ++ origin.display ++ "'"
  | notCallable target kind => "'" ++ target ++ "' is not callable (found " ++ kind ++ ")"
  | noSuchMethod object method => object ++ " has no method '" ++ method ++ "'"
  | callFailed target source => "Call to '" ++ target ++ "' failed: " ++ source
  | lifecycle phase misstep => "Lifecycle error during " ++ phase.name ++ ": " ++ misstep.message
  | config fault => "Config error (" ++ fault.area ++ "): " ++ fault.message
  | io operation path source =>
      "I/O error during operation '" ++ operation ++ "' on path '" ++ path ++ "': " ++ source
  | tooDeep => "Calls are nested too deeply"
  | other message => "Error: " ++ message

def isDeveloper : Error → Bool
  | developer _ | requirement .. | requirementAttribute .. | unexpectedValue .. => true
  | _ => false

/-- The context an error carries, if it does. -/
def context? : Error → Option Context
  | developer misuse => some misuse.context
  | unexpectedValue _ _ context => some context
  | _ => none

/-- The text of the error behind this one, if there is one. -/
def source? : Error → Option String
  | developer misuse => misuse.source?
  | config fault => fault.source?
  | callFailed _ source => some source
  | io _ _ source => some source
  | _ => none

/-- Says who needed a path that was not found; other errors stay as they are. -/
def intoRequirement (use : PathUse) (identity : String) (origin : Origin) : Error → Error
  | pathNotFound missing => requirement use missing identity origin
  | e => e

end Error

end AppAssembly
