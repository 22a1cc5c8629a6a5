import AppAssembly.Compile
import Mathlib.Data.List.Nodup

/-!
# What a block contributes

Under the built-in handlers the name of a block, in any case, decides what becomes of it
(`BlockKind`). What the block then puts on the type and what it leaves in the ledger is said here
as functions of its declaration alone; the handlers agree with them (`handle_contributes`), and so
do custom blocks.
-/

namespace AppAssembly

/-! ## Kinds of blocks -/

/-- What becomes of a block. -/
inductive BlockKind where
  | attrs
  | checkers
  | components
  | install
  | installers
  | methods
  | requires
  /-- No handler answers to the block, so it describes an object. -/
  | custom
deriving DecidableEq, Repr

namespace BlockKind

/-- The kinds with a handler, under the lower-case names of their blocks. -/
def known : Entries String BlockKind :=
  [("attrs", attrs), ("checkers", checkers), ("components", components), ("install", install),
    ("installers", installers), ("methods", methods), ("requires", requires)]

def ofName (name : String) : BlockKind :=
  (known.get? (Text.lowercase name)).getD custom

def handler? : BlockKind → Option Handler
  | attrs => some Handler.attrs
  | checkers => some Handler.checkers
  | components => some Handler.components
  | install => some (Handler.installersNamed "install")
  | installers => some (Handler.installersNamed "installers")
  | methods => some Handler.methods
  | requires => some Handler.requires
  | custom => none

/-- Whether every entry of the block becomes an attribute of the type. -/
def putsEntries : BlockKind → Bool
  | attrs | checkers | methods => true
  | _ => false

end BlockKind

def Block.kind (b : Block) : BlockKind :=
  .ofName b.identity

/-- Some kinds with their handlers in their place. -/
theorem BlockKind.get?_handler? {kinds : Entries String BlockKind}
    (hhandler : ∀ entry ∈ kinds, entry.2.handler?.isSome) (name : String) :
    Entries.get? (kinds.filterMap fun (key, kind) =>
        kind.handler?.map fun handler => (key, handler)) name =
      ((kinds.get? name).getD custom).handler? := by
  induction kinds with
  | nil => rfl
  | cons entry rest ih =>
      obtain ⟨key, kind⟩ := entry
      obtain ⟨handler, hsome⟩ := Option.isSome_iff_exists.mp (hhandler _ List.mem_cons_self)
      dsimp only at hsome
      simp only [List.filterMap_cons, hsome, Option.map_some, Entries.get?_cons]
      split
      · exact hsome.symm
      · exact ih fun entry hentry => hhandler entry (List.mem_cons_of_mem _ hentry)

/-- The built-in handlers are found by the kind of the block. -/
theorem HandlerRegistry.find?_builtIn (name : String) :
    HandlerRegistry.builtIn.find? name = (BlockKind.ofName name).handler? := by
  have hhandlers : HandlerRegistry.builtIn.handlers = BlockKind.known.filterMap fun (key, kind) =>
      kind.handler?.map fun handler => (key, handler) := by
    rfl
  unfold HandlerRegistry.find?
  rw [hhandlers]
  exact BlockKind.get?_handler? (by simp [BlockKind.known, BlockKind.handler?]) _

/-- Whether a registry has for a block what the built-in one has for it. -/
def HandlerRegistry.IsBuiltInFor (handlers : HandlerRegistry) (b : Block) : Prop :=
  handlers.find? b.identity = b.kind.handler?

theorem HandlerRegistry.builtIn_isBuiltInFor (b : Block) : builtIn.IsBuiltInFor b :=
  find?_builtIn b.identity

/-! ## Products and records -/

open Compile Handler

/-- A requirement for some paths, if there are any. -/
def demand (paths : List String) (identity : String) (origin : Origin) : List Requirement :=
  if paths.isEmpty then [] else [⟨paths, identity, origin⟩]

theorem mem_demand {paths : List String} {identity : String} {origin : Origin} {r : Requirement} :
    r ∈ demand paths identity origin ↔ paths ≠ [] ∧ r = ⟨paths, identity, origin⟩ := by
  unfold demand
  cases paths <;> simp

/-- What the callables among some products ask for. -/
def markers (origin : Origin) (products : Products) : List Requirement :=
  products.flatMap fun (name, content) =>
    match content with
    | .value v => demand v.requiredPaths name origin
    | _ => []

namespace Declaration

/-- What stands under an entry's key once the entry is an attribute. -/
def content (d : Declaration) (key : String) (v : Value) : Content :=
  match v with
  | .null => d.nullContent key
  | .str path => if d.block.kind = .methods then .delegate ⟨key, path, d.origin⟩ else .value v
  | v => .value v

/-- The attributes that the block puts on the type. -/
def products (d : Declaration) : Products :=
  match d.block.kind with
  | .attrs | .checkers | .methods => d.entriesOverNulls.map fun (key, v) => (key, d.content key v)
  | .install | .installers | .requires => []
  | .components | .custom => [(Text.lowercase d.block.identity, .deferred)]

/-- The names under which the block hides something. -/
def suppressed (d : Declaration) : List String :=
  if d.block.kind.putsEntries then d.suppressedKeys d.entriesOverNulls else []

/-- The components that are left after dropping the nulls. -/
def componentEntries (d : Declaration) : Entries String Value :=
  (mergedEntries d).filter fun (_, v) => !v.isNull

/-- The group that a components block describes. -/
def groups (d : Declaration) : List ComponentGroup :=
  if d.block.kind = .components then
    [⟨Text.lowercase d.block.identity, d.componentEntries.mapValues .ofValue, d.origin⟩]
  else []

/-- The object that a custom block describes. -/
def objects (d : Declaration) : List CustomObject :=
  if d.block.kind = .custom then (customObject? d).toList else []

/-- The paths that an entry of a requires block asks for, none if it can't be read. -/
def askedPaths (d : Declaration) (key : String) (v : Value) : List String :=
  match requiredPaths d key v with
  | .ok paths => paths
  | .error _ => []

/-- The requirements that the block records itself, apart from what its products ask for. -/
def demands (d : Declaration) : List Requirement :=
  match d.block.kind with
  | .components => d.componentEntries.flatMap fun (key, v) =>
      match v with
      | .factory f => demand f.requires (Text.lowercase d.block.identity ++ "." ++ key) d.origin
      | _ => []
  | .requires =>
      (droppedRequirements d).map (fun key => ⟨[], key, d.origin⟩) ++
        d.block.entries.map fun (key, v) => ⟨d.askedPaths key v, key, d.origin⟩
  | .custom => d.objects.flatMap fun object =>
      demand object.factory.requires object.identity d.origin
  | _ => []

/-- What a block does to the ledger before its products are placed. -/
structure Records (d : Declaration) (l after : Ledger) : Prop where
  added : after.added = l.added
  removed : after.removed = l.removed.add d.origin d.suppressed
  replaced : after.replaced = l.replaced
  components : after.components = l.components ++ d.groups
  custom : after.custom = l.custom ++ d.objects
  requirements : after.requirements = l.requirements ++ d.demands

end Declaration

/-! ## Entries that become attributes -/

namespace Declaration

variable {d : Declaration} {name : String}

theorem products_of_putsEntries (h : d.block.kind.putsEntries = true) :
    d.products = d.entriesOverNulls.map fun (key, v) => (key, d.content key v) := by
  unfold products
  cases hkind : d.block.kind with
  | attrs | checkers | methods => rfl
  | _ =>
      rw [hkind] at h
      cases h

theorem nodup_products (h : (Entries.keys d.entriesOverNulls).Nodup) :
    (Entries.keys d.products).Nodup := by
  unfold products
  cases d.block.kind with
  | attrs | checkers | methods => simpa [Entries.keys, Function.comp_def] using h
  | _ => simp [Entries.keys]

theorem mem_suppressed : name ∈ d.suppressed ↔ d.block.kind.putsEntries = true ∧
    (name, .null) ∈ d.entriesOverNulls ∧ d.overridesInherited name = true := by
  have hnull : ∀ v : Value, v.isNull = true ↔ v = .null := by
    intro v
    cases v <;> simp [Value.isNull]
  unfold suppressed suppressedKeys
  split
  · rename_i hputs
    simp [Entries.keys, hputs, hnull]
  · rename_i hputs
    simp [hputs]

theorem mem_keys_products_of_mem_suppressed (h : name ∈ d.suppressed) :
    name ∈ Entries.keys d.products := by
  obtain ⟨hputs, hentry, _⟩ := mem_suppressed.mp h
  rw [products_of_putsEntries hputs]
  simp only [Entries.keys, List.map_map]
  exact List.mem_map.mpr ⟨_, hentry, rfl⟩

end Declaration

/-! ## The ledger entry by entry -/

theorem Ledger.recordMarker_eq (l : Ledger) (v : Value) (identity : String) (origin : Origin) :
    l.recordMarker v identity origin =
      { l with requirements := l.requirements ++ demand v.requiredPaths identity origin } := by
  unfold recordMarker demand
  split
  · simp
  · rfl

theorem Ledger.recordFactory_eq (l : Ledger) (f : Factory) (identity : String) (origin : Origin) :
    l.recordFactory f identity origin =
      { l with requirements := l.requirements ++ demand f.requires identity origin } := by
  unfold recordFactory demand
  split
  · simp
  · rfl

theorem recordMarkers_eq (origin : Origin) (products : Products) (l : Ledger) :
    recordMarkers origin products l =
      { l with requirements := l.requirements ++ markers origin products } := by
  unfold recordMarkers markers
  induction products generalizing l with
  | nil => simp
  | cons product rest ih =>
      obtain ⟨name, content⟩ := product
      rw [List.foldl_cons, ih, List.flatMap_cons]
      cases content with
      | value v => simp [Ledger.recordMarker_eq]
      | delegate own => rfl
      | deferred => rfl

theorem recordComponentFactories_eq (identity : String) (origin : Origin)
    (entries : Entries String Value) (l : Ledger) :
    recordComponentFactories identity origin entries l =
      { l with requirements := l.requirements ++ entries.flatMap fun (key, v) =>
          match v with
          | .factory f => demand f.requires (identity ++ "." ++ key) origin
          | _ => [] } := by
  unfold recordComponentFactories
  induction entries generalizing l with
  | nil => simp
  | cons entry rest ih =>
      obtain ⟨key, v⟩ := entry
      rw [List.foldl_cons, ih, List.flatMap_cons]
      cases v with
      | factory f => simp [Ledger.recordFactory_eq]
      | _ => rfl

theorem recordRequired_eq_ok {d : Declaration} {entries : Entries String Value} {l after : Ledger}
    (h : recordRequired d l entries = .ok after) :
    after = { l with
      requirements := l.requirements ++
        entries.map fun (key, v) => ⟨d.askedPaths key v, key, d.origin⟩ } := by
  induction entries generalizing l with
  | nil =>
      cases h
      simp
  | cons entry rest ih =>
      obtain ⟨key, v⟩ := entry
      unfold recordRequired at h
      cases hpaths : requiredPaths d key v with
      | error e =>
          simp only [hpaths] at h
          cases h
      | ok paths =>
          simp only [hpaths] at h
          rw [ih h]
          simp [Ledger.recordRequirement, Declaration.askedPaths, hpaths]

theorem foldl_recordSuppression (origin : Origin) (keys : List String) (l : Ledger) :
    keys.foldl (fun l key => l.recordRequirement [] key origin) l =
      { l with requirements := l.requirements ++ keys.map fun key => ⟨[], key, origin⟩ } := by
  induction keys generalizing l with
  | nil => simp
  | cons key rest ih =>
      rw [List.foldl_cons, ih]
      simp [Ledger.recordRequirement]

theorem foldl_recordChecker (origin : Origin) (entries : Entries String Value) (l : Ledger) :
    entries.foldl (fun l (key, v) => l.recordChecker key origin (isActiveChecker v)) l =
      { l with checkers := l.checkers ++
          entries.map fun (key, v) => ⟨key, origin, isActiveChecker v⟩ } := by
  induction entries generalizing l with
  | nil => simp
  | cons entry rest ih =>
      rw [List.foldl_cons, ih]
      simp [Ledger.recordChecker]

theorem foldl_recordMethod (origin : Origin) (keys : List String) (l : Ledger) :
    keys.foldl (fun l key => l.recordMethod key origin) l =
      { l with methods := l.methods ++ keys.map fun key => ⟨key, origin⟩ } := by
  induction keys generalizing l with
  | nil => simp
  | cons key rest ih =>
      rw [List.foldl_cons, ih]
      simp [Ledger.recordMethod]

/-! ## The handlers -/

namespace Handler

variable {d : Declaration} {l after : Ledger} {products : Products}

theorem methodContent?_eq_some {key : String} {v : Value} {content : Content}
    (hkind : d.block.kind = .methods) (h : methodContent? d key v = some content) :
    content = d.content key v := by
  unfold methodContent? at h
  unfold Declaration.content
  split at h
  · cases h
    simp [hkind]
  · cases h
    rfl
  · rename_i hstr hnull
    split at h
    · cases h
      -- neither a path nor a null
      cases v with
      | str path => exact absurd rfl (hstr path)
      | null => exact absurd rfl hnull
      | _ => rfl
    · cases h

theorem attrs_contributes (hkind : d.block.kind = .attrs)
    (h : attrs.handle d l = .ok (products, after)) :
    products = d.products ∧ d.Records l after := by
  cases h
  refine ⟨?_, ⟨rfl, ?_, rfl, ?_, ?_, ?_⟩⟩
  · unfold Declaration.products
    simp only [hkind]
    refine List.map_congr_left fun ⟨key, v⟩ _ => ?_
    cases v <;> simp [Declaration.content, Value.isNull, hkind]
  · simp [Declaration.suppressed, BlockKind.putsEntries, hkind, Ledger.recordAttrs,
      Ledger.recordRemoved]
  · simp [Declaration.groups, hkind, Ledger.recordAttrs, Ledger.recordRemoved]
  · simp [Declaration.objects, hkind, Ledger.recordAttrs, Ledger.recordRemoved]
  · simp [Declaration.demands, hkind, Ledger.recordAttrs, Ledger.recordRemoved]

theorem checkers_contributes (hkind : d.block.kind = .checkers)
    (h : checkers.handle d l = .ok (products, after)) :
    products = d.products ∧ d.Records l after := by
  unfold checkers at h
  dsimp only at h
  split at h
  · cases h
  rw [foldl_recordChecker] at h
  cases h
  refine ⟨?_, ⟨rfl, ?_, rfl, ?_, ?_, ?_⟩⟩
  · unfold Declaration.products
    simp only [hkind]
    refine List.map_congr_left fun ⟨key, v⟩ _ => ?_
    cases v <;> simp [Declaration.content, Value.isNull, hkind]
  · simp [Declaration.suppressed, BlockKind.putsEntries, hkind, Ledger.recordRemoved]
  · simp [Declaration.groups, hkind, Ledger.recordRemoved]
  · simp [Declaration.objects, hkind, Ledger.recordRemoved]
  · simp [Declaration.demands, hkind, Ledger.recordRemoved]

theorem methods_contributes (hkind : d.block.kind = .methods)
    (h : methods.handle d l = .ok (products, after)) :
    products = d.products ∧ d.Records l after := by
  unfold methods at h
  dsimp only at h
  split at h
  · cases h
  rename_i hallowed
  rw [foldl_recordMethod] at h
  cases h
  refine ⟨?_, ⟨rfl, ?_, rfl, ?_, ?_, ?_⟩⟩
  · unfold Declaration.products
    simp only [hkind]
    refine List.filterMap_eq_map_iff_forall_eq_some.mpr fun ⟨key, v⟩ hentry => ?_
    -- every entry may stand there, or the block would have been refused
    have hsome := List.find?_eq_none.mp hallowed _ hentry
    cases hcontent : methodContent? d key v with
    | none => simp [hcontent] at hsome
    | some content => simp [methodContent?_eq_some hkind hcontent]
  · simp [Declaration.suppressed, BlockKind.putsEntries, hkind, Ledger.recordRemoved]
  · simp [Declaration.groups, hkind, Ledger.recordRemoved]
  · simp [Declaration.objects, hkind, Ledger.recordRemoved]
  · simp [Declaration.demands, hkind, Ledger.recordRemoved]

theorem installersNamed_contributes {name : String}
    (hkind : d.block.kind = .install ∨ d.block.kind = .installers)
    (h : (installersNamed name).handle d l = .ok (products, after)) :
    products = d.products ∧ d.Records l after := by
  unfold installersNamed Ledger.setInstallers at h
  dsimp only at h
  split at h
  · cases h
  split at h
  · rename_i hset
    split at hset
    · cases hset
    cases hset
    cases h
    rcases hkind with hkind | hkind <;>
      refine ⟨?_, ⟨rfl, ?_, rfl, ?_, ?_, ?_⟩⟩ <;>
      simp [Declaration.products, Declaration.suppressed, BlockKind.putsEntries,
        Declaration.groups, Declaration.objects, Declaration.demands, NameRecord.add, hkind]
  · cases h

theorem components_contributes (hkind : d.block.kind = .components)
    (h : components.handle d l = .ok (products, after)) :
    products = d.products ∧ d.Records l after := by
  unfold components at h
  dsimp only at h
  rw [recordComponentFactories_eq] at h
  cases h
  refine ⟨?_, ⟨rfl, ?_, rfl, ?_, ?_, ?_⟩⟩
  · simp [Declaration.products, hkind]
  · simp [Declaration.suppressed, BlockKind.putsEntries, hkind, NameRecord.add,
      Ledger.recordComponents]
  · simp [Declaration.groups, hkind, Ledger.recordComponents, Declaration.componentEntries]
  · simp [Declaration.objects, hkind, Ledger.recordComponents]
  · simp [Declaration.demands, hkind, Ledger.recordComponents, Declaration.componentEntries]

theorem requires_contributes (hkind : d.block.kind = .requires)
    (h : requires.handle d l = .ok (products, after)) :
    products = d.products ∧ d.Records l after := by
  unfold requires at h
  dsimp only at h
  rw [foldl_recordSuppression] at h
  split at h
  · rename_i hrecorded
    cases h
    rw [recordRequired_eq_ok hrecorded]
    refine ⟨?_, ⟨rfl, ?_, rfl, ?_, ?_, ?_⟩⟩ <;>
      simp [Declaration.products, Declaration.suppressed, BlockKind.putsEntries,
        Declaration.groups, Declaration.objects, Declaration.demands, NameRecord.add, hkind]
  · cases h

/-- What a built-in handler does, said for all of them: it makes the products of the declaration
and records what the declaration asks for. -/
theorem handle_contributes {handler : Handler} (hfind : d.block.kind.handler? = some handler)
    (h : handler.handle d l = .ok (products, after)) :
    products = d.products ∧ d.Records l after := by
  cases hkind : d.block.kind <;> rw [hkind] at hfind <;> cases hfind
  · exact attrs_contributes hkind h
  · exact checkers_contributes hkind h
  · exact components_contributes hkind h
  · exact installersNamed_contributes (.inl hkind) h
  · exact installersNamed_contributes (.inr hkind) h
  · exact methods_contributes hkind h
  · exact requires_contributes hkind h

end Handler

/-! ## The keys of what a block makes -/

theorem inheritedBlock_nodup (bases : List CompiledType) (ancestors : List Layer) (name : String) :
    (inheritedBlock bases ancestors name).entries.keys.Nodup := by
  unfold inheritedBlock
  rw [Entries.keys_filterMap]
  refine List.Nodup.filter _ ?_
  rw [← List.map_id (firstBy id _)]
  exact nodup_map_firstBy id _

theorem Compile.Site.nodup_entriesOverNulls (site : Site) (b : Block) :
    (site.declaration b).entriesOverNulls.keys.Nodup := by
  refine Entries.nodup_keys_overlay ?_ _
  unfold Declaration.nulls
  split
  · have hkeys : Entries.keys ((site.declaration b).inherited.entries.mapValues fun _ => Value.null)
        = (site.declaration b).inherited.entries.keys := by
      simp [Entries.keys, Entries.mapValues]
    rw [hkeys]
    exact inheritedBlock_nodup ..
  · simp [Entries.keys]

theorem Compile.Site.nodup_products (site : Site) (b : Block) :
    (Entries.keys (site.declaration b).products).Nodup :=
  Declaration.nodup_products (site.nodup_entriesOverNulls b)

theorem Compile.Site.nodup_mergedEntries (site : Site) (b : Block) :
    (Handler.mergedEntries (site.declaration b)).keys.Nodup := by
  refine Entries.nodup_keys_overlay ?_ _
  split
  · exact inheritedBlock_nodup ..
  · simp [Entries.keys]

theorem Compile.Site.nodup_componentEntries (site : Site) (b : Block) :
    (site.declaration b).componentEntries.keys.Nodup :=
  List.Nodup.sublist (List.filter_sublist.map Prod.fst) (site.nodup_mergedEntries b)

/-- Where a null hides something there is a callable that refuses to be called. -/
theorem Compile.Site.content_of_mem_suppressed {site : Site} {b : Block} {name : String}
    {content : Content} (h : name ∈ (site.declaration b).suppressed)
    (hcontent : (name, content) ∈ (site.declaration b).products) :
    content = .value (.callable (.notImplemented site.layer name (b.origin site.typeName))) := by
  obtain ⟨hputs, hentry, hoverrides⟩ := Declaration.mem_suppressed.mp h
  rw [Declaration.products_of_putsEntries hputs] at hcontent
  obtain ⟨⟨key, v⟩, hv, heq⟩ := List.mem_map.mp hcontent
  cases heq
  -- no other entry has the name
  have hsame := List.inj_on_of_nodup_map (site.nodup_entriesOverNulls b) hv hentry rfl
  cases hsame
  show (site.declaration b).nullContent name = _
  rw [Declaration.nullContent, if_pos hoverrides]
  rfl

end AppAssembly
