import AppAssembly.Loader.Load
import AppAssembly.Proofs.Courses
import AppAssembly.Proofs.Hierarchy

/-!
# Loading

What a type of a document compiles to depends on the library that it finds, and all that loading
it does to the registry is to put the compiled type at the end, if there is one. So a document adds
its types in order, up to the first that fails, and leaves what was registered where it was.
-/

namespace AppAssembly

/-! ## Specifications of documents -/

namespace Catalog

variable {c : Catalog} {spec next : TypeSpec}

theorem addBlocks_name {blocks : Entries String (Entries String RawValue)}
    (h : c.addBlocks spec blocks = .ok next) : next.name = spec.name := by
  induction blocks generalizing spec with
  | nil =>
      cases h
      rfl
  | cons block blocks ih =>
      obtain ⟨b, _, h⟩ := bind_eq_ok.mp h
      have hname := ih h
      exact hname

theorem addMembers_name {members : Entries String RawValue}
    (h : c.addMembers spec members = .ok next) : next.name = spec.name := by
  induction members generalizing spec with
  | nil =>
      cases h
      rfl
  | cons entry members ih =>
      obtain ⟨v, _, h⟩ := bind_eq_ok.mp h
      have hname := ih h
      exact hname

theorem typeSpec_name {file : Option String} {doc : TypeDocument}
    (h : c.typeSpec file doc = .ok spec) : spec.name = doc.name := by
  obtain ⟨blocks, hblocks, h⟩ := bind_eq_ok.mp h
  rw [addMembers_name h, addBlocks_name hblocks]

end Catalog

theorem compile_name {handlers : HandlerRegistry} {layer : Nat} {spec : TypeSpec}
    {bases : List CompiledType} {t : CompiledType}
    (h : compile handlers layer spec bases = .ok t) : t.name = spec.name := by
  obtain ⟨_, _, _, _, _, _, hown⟩ := compile_eq_ok h
  rw [CompiledType.name, hown]

/-! ## One type -/

/-- A type under its name, as it is registered. -/
def CompiledType.entry (t : CompiledType) : String × CompiledType :=
  (t.name, t)

/-- The library with one more type, which took the next identity. -/
def Library.add (library : Library) (t : CompiledType) : Library :=
  ⟨⟨library.registry.types ++ [t.entry]⟩, library.nextLayer + 1⟩

namespace Loader

variable {l : Loader} {file : Option String} {doc : TypeDocument} {docs : List TypeDocument}
  {library after : Library} {t : CompiledType} {ts : List CompiledType} {e : Error}

/-- What a type of a document compiles to on top of a library. Its name must be new, its bases
registered, and its specification must compile. -/
def compileType (l : Loader) (file : Option String) (library : Library) (doc : TypeDocument) :
    Except Error CompiledType := do
  if library.registry.contains doc.name then throw (.config (.declaredTwice doc.name))
  let bases ← doc.bases.mapM library.registry.get
  let spec ← l.catalog.typeSpec file doc
  compile l.handlers library.nextLayer spec bases

theorem compileType_eq_ok (h : l.compileType file library doc = .ok t) :
    library.registry.contains doc.name = false ∧
    ∃ bases spec, doc.bases.mapM library.registry.get = .ok bases ∧
      l.catalog.typeSpec file doc = .ok spec ∧
      compile l.handlers library.nextLayer spec bases = .ok t := by
  unfold compileType at h
  cases hfresh : library.registry.contains doc.name with
  | true =>
      rw [hfresh] at h
      cases h
  | false =>
      rw [hfresh] at h
      obtain ⟨bases, hbases, h⟩ := bind_eq_ok.mp h
      obtain ⟨spec, hspec, h⟩ := bind_eq_ok.mp h
      exact ⟨rfl, bases, spec, hbases, hspec, h⟩

theorem compileType_name (h : l.compileType file library doc = .ok t) : t.name = doc.name := by
  obtain ⟨_, _, spec, _, hspec, hcompile⟩ := compileType_eq_ok h
  rw [compile_name hcompile, Catalog.typeSpec_name hspec]

/-- A type that compiles is registered. -/
theorem loadType_ok (h : l.compileType file library doc = .ok t) :
    l.loadType file doc library = (.ok t, library.add t) := by
  have hname := compileType_name h
  obtain ⟨hfresh, bases, spec, hbases, hspec, hcompile⟩ := compileType_eq_ok h
  -- the type has the name that was checked first, so registering it can't be refused
  have hregister : library.registry.register t = .ok ⟨library.registry.types ++ [t.entry]⟩ := by
    rw [TypeRegistry.register, hname, hfresh]
    simp [CompiledType.entry, hname]
  simp [loadType, Act.bind_apply, Act.ofExcept, hfresh, hbases, hspec, hcompile, hregister,
    Library.add]

/-- A type that does not compile leaves the registry as it is. -/
theorem loadType_error (h : l.compileType file library doc = .error e) :
    ∃ n, l.loadType file doc library = (.error e, { library with nextLayer := n }) := by
  unfold compileType at h
  cases hfresh : library.registry.contains doc.name with
  | true =>
      rw [hfresh] at h
      cases h
      exact ⟨library.nextLayer, by simp [loadType, Act.bind_apply, hfresh]⟩
  | false =>
      rw [hfresh] at h
      obtain hbases | ⟨bases, hbases, h⟩ := bind_eq_error.mp h
      · refine ⟨library.nextLayer, ?_⟩
        simp [loadType, Act.bind_apply, Act.ofExcept, hfresh, hbases]
      obtain hspec | ⟨spec, hspec, hcompile⟩ := bind_eq_error.mp h
      · refine ⟨library.nextLayer, ?_⟩
        simp [loadType, Act.bind_apply, Act.ofExcept, hfresh, hbases, hspec]
      · refine ⟨library.nextLayer + 1, ?_⟩
        simp [loadType, Act.bind_apply, Act.ofExcept, hfresh, hbases, hspec, hcompile]

/-- A type that loads has compiled. -/
theorem compileType_of_ok (h : l.loadType file doc library = (.ok t, after)) :
    l.compileType file library doc = .ok t ∧ after = library.add t := by
  cases hcompile : l.compileType file library doc with
  | error e =>
      obtain ⟨n, hload⟩ := loadType_error hcompile
      cases hload.symm.trans h
  | ok t =>
      cases (loadType_ok hcompile).symm.trans h
      exact ⟨rfl, rfl⟩

/-- A type that doesn't load has not compiled. -/
theorem compileType_of_error (h : l.loadType file doc library = (.error e, after)) :
    l.compileType file library doc = .error e ∧ after.registry = library.registry := by
  cases hcompile : l.compileType file library doc with
  | error e =>
      obtain ⟨n, hload⟩ := loadType_error hcompile
      cases hload.symm.trans h
      exact ⟨rfl, rfl⟩
  | ok t => cases (loadType_ok hcompile).symm.trans h

/-! ## A whole document -/

/-- Types of a document that compiled in order, each on top of the library that holds those before
it, and the library that holds them all. -/
inductive Loaded (l : Loader) (file : Option String) :
    Library → List TypeDocument → List CompiledType → Library → Prop where
  | nil (library : Library) : Loaded l file library [] [] library
  | cons {library after : Library} {doc : TypeDocument} {docs : List TypeDocument}
      {t : CompiledType} {ts : List CompiledType} (first : l.compileType file library doc = .ok t)
      (rest : Loaded l file (library.add t) docs ts after) :
      Loaded l file library (doc :: docs) (t :: ts) after

theorem Loaded.types (h : l.Loaded file library docs ts after) :
    after.registry.types = library.registry.types ++ ts.map CompiledType.entry := by
  induction h with
  | nil library => simp
  | cons first rest ih =>
      rw [ih]
      simp [Library.add]

theorem Loaded.names (h : l.Loaded file library docs ts after) :
    ts.map CompiledType.name = docs.map TypeDocument.name := by
  induction h with
  | nil library => rfl
  | cons first rest ih => rw [List.map_cons, List.map_cons, compileType_name first, ih]

theorem loaded_of_ok (h : Act.mapList docs (l.loadType file) library = (.ok ts, after)) :
    l.Loaded file library docs ts after := by
  induction docs generalizing library ts with
  | nil =>
      cases h
      exact .nil _
  | cons doc docs ih =>
      obtain ⟨t, middle, rest, hfirst, hrest, rfl⟩ := Act.mapList_cons_ok h
      obtain ⟨hcompile, rfl⟩ := compileType_of_ok hfirst
      exact .cons hcompile (ih hrest)

/-- A document fails at one of its types, with the types before it loaded. -/
theorem loaded_of_error (h : Act.mapList docs (l.loadType file) library = (.error e, after)) :
    ∃ before failing rest ts middle, docs = before ++ failing :: rest ∧
      l.Loaded file library before ts middle ∧ l.compileType file middle failing = .error e ∧
      after.registry = middle.registry := by
  induction docs generalizing library with
  | nil => cases h
  | cons doc docs ih =>
      obtain hfirst | ⟨t, middle, hfirst, hrest⟩ := Act.mapList_cons_error h
      · obtain ⟨hfails, hafter⟩ := compileType_of_error hfirst
        exact ⟨[], doc, docs, [], library, rfl, .nil library, hfails, hafter⟩
      · obtain ⟨hcompile, rfl⟩ := compileType_of_ok hfirst
        obtain ⟨before, failing, rest, ts, middle, rfl, hloaded, hfails, hafter⟩ := ih hrest
        exact ⟨doc :: before, failing, rest, t :: ts, middle, rfl, .cons hcompile hloaded, hfails,
          hafter⟩

/-- Loading a document only adds to the registry. If it succeeds, the registry has one compiled type
more for every type of the document, in the order of the document, and these are the result. If it
fails at a type, the registry has those more that come before it. A document may also be cut in
two anywhere and loaded in parts. -/
theorem loadDocument_appends (l : Loader) (file : Option String) (doc : SpecDocument)
    (library : Library) :
    (match l.loadDocument file doc library with
      | (.ok ts, after) =>
          l.Loaded file library doc.types ts after ∧
          ts.map CompiledType.name = doc.types.map TypeDocument.name ∧
          after.registry.types = library.registry.types ++ ts.map CompiledType.entry
      | (.error e, after) =>
          ∃ before failing rest ts middle, doc.types = before ++ failing :: rest ∧
            l.Loaded file library before ts middle ∧
            l.compileType file middle failing = .error e ∧
            ts.map CompiledType.name = before.map TypeDocument.name ∧
            after.registry.types = library.registry.types ++ ts.map CompiledType.entry) ∧
    ∀ n, l.loadDocument file doc library =
      (do
        let first ← l.loadDocument file ⟨doc.types.take n⟩
        let second ← l.loadDocument file ⟨doc.types.drop n⟩
        return first ++ second : Act Library (List CompiledType)) library := by
  refine ⟨?_, fun n => ?_⟩
  · rcases hrun : l.loadDocument file doc library with ⟨e | ts, after⟩
    · obtain ⟨before, failing, rest, ts, middle, hdoc, hloaded, hfails, hafter⟩ :=
        loaded_of_error hrun
      refine ⟨before, failing, rest, ts, middle, hdoc, hloaded, hfails, hloaded.names, ?_⟩
      rw [hafter, hloaded.types]
    · have hloaded := loaded_of_ok hrun
      exact ⟨hloaded, hloaded.names, hloaded.types⟩
  · have hwhole := Act.mapList_append (doc.types.take n) (doc.types.drop n) (l.loadType file)
    rw [List.take_append_drop] at hwhole
    exact congrFun hwhole library

/-- A type without its base stops a document: the type before it stays registered, and the type
after it is not loaded. -/
example :
    (({} : Loader).loadDocument none
      ⟨[{ name := "Base" }, { name := "App", bases := ["Missing"] }, { name := "Tool" }]⟩
      {}).2.registry.names = ["Base"] := by decide +kernel

end Loader

end AppAssembly
