import AppAssembly.Proofs.Drafts
import AppAssembly.Proofs.Inheritance
import AppAssembly.Proofs.Override

/-!
# What a layer asks for

Requirements come from many places: entries of a requires block, callables that a block makes or
that are declared by hand, main types, components. They share one space of identities, and of those
with one identity the first that a layer records is the one that counts. A requirement of an
attribute has the attribute's name as its identity, so two of these never meet; a requirement is
lost only to, or as, an entry of a requires block or a component (`Compilation.requirement_kept`).
-/

namespace AppAssembly

open Compile

/-! ## Sources -/

/-- Where a requirement comes from. -/
inductive DemandSource where
  /-- It stood in the ledger that compilation started from. -/
  | given
  | required
  /-- An inherited entry that a requires block drops. -/
  | dropped
  | produced
  | byHand
  | mainType
  | component
deriving DecidableEq, Repr

/-- Whether the requirement is an attribute's, under the attribute's name. -/
def DemandSource.isAttribute : DemandSource → Bool
  | produced | byHand | mainType => true
  | _ => false

/-- What a block asks for, and why. -/
inductive Declaration.Asks (d : Declaration) : DemandSource → Requirement → Prop where
  | required {key : String} {v : Value} (kind : d.block.kind = .requires)
      (entry : (key, v) ∈ d.block.entries) :
      d.Asks .required ⟨d.askedPaths key v, key, d.origin⟩
  | dropped {key : String} (kind : d.block.kind = .requires)
      (drops : key ∈ Handler.droppedRequirements d) : d.Asks .dropped ⟨[], key, d.origin⟩
  | produced {name : String} {v : Value} (product : (name, .value v) ∈ d.products)
      (asks : v.requiredPaths ≠ []) : d.Asks .produced ⟨v.requiredPaths, name, d.origin⟩
  | mainType {object : CustomObject} (describes : object ∈ d.objects)
      (asks : object.factory.requires ≠ []) :
      d.Asks .mainType ⟨object.factory.requires, object.identity, d.origin⟩
  | component {key : String} {f : Factory} (kind : d.block.kind = .components)
      (entry : (key, .factory f) ∈ d.componentEntries) (asks : f.requires ≠ []) :
      d.Asks .component ⟨f.requires, "components." ++ key, d.origin⟩

/-- What a type asks for, and why. -/
inductive Compilation.Asks (c : Compilation) : DemandSource → Requirement → Prop where
  | given {r : Requirement} (stood : r ∈ c.spec.ledger.requirements) : c.Asks .given r
  | block {b : Block} {s : DemandSource} {r : Requirement} (declared : b ∈ c.spec.blocks)
      (asks : (c.site.declaration b).Asks s r) : c.Asks s r
  | byHand {name : String} {v : Value} (member : (name, v) ∈ c.spec.members)
      (asks : v.requiredPaths ≠ []) :
      c.Asks .byHand ⟨v.requiredPaths, name, c.spec.memberOrigin name⟩

/-! ## Blocks -/

theorem BlockKind.lowercase_of_components {name : String} (h : ofName name = components) :
    Text.lowercase name = "components" := by
  unfold ofName at h
  cases hknown : known.get? (Text.lowercase name) with
  | none =>
      rw [hknown] at h
      cases h
  | some kind =>
      rw [hknown] at h
      obtain rfl : kind = components := h
      have hmem := Entries.mem_of_get?_eq_some hknown
      simpa [known] using hmem

namespace Declaration

variable {d : Declaration} {r : Requirement}

theorem mem_markers {origin : Origin} {products : Products} : r ∈ markers origin products ↔
    ∃ name v, (name, .value v) ∈ products ∧ v.requiredPaths ≠ [] ∧
      r = ⟨v.requiredPaths, name, origin⟩ := by
  unfold markers
  rw [List.mem_flatMap]
  constructor
  · rintro ⟨⟨name, content⟩, hproduct, hr⟩
    cases content with
    | value v =>
        obtain ⟨hpaths, rfl⟩ := mem_demand.mp hr
        exact ⟨name, v, hproduct, hpaths, rfl⟩
    | delegate own => cases hr
    | deferred => cases hr
  · rintro ⟨name, v, hproduct, hpaths, rfl⟩
    exact ⟨_, hproduct, mem_demand.mpr ⟨hpaths, rfl⟩⟩

theorem mem_objects {object : CustomObject} :
    object ∈ d.objects ↔ d.block.kind = .custom ∧ customObject? d = some object := by
  unfold objects
  split
  · rename_i hkind
    simp [hkind, Option.mem_toList]
  · rename_i hkind
    simp [hkind]

/-- An object is built for the attribute of its block's name. -/
theorem product_of_mem_objects {object : CustomObject} (h : object ∈ d.objects) :
    object.identity = Text.lowercase d.block.identity ∧
      (object.identity, .deferred) ∈ d.products := by
  obtain ⟨hkind, hobject⟩ := mem_objects.mp h
  have hidentity := (customObject?_eq_some hobject).1
  refine ⟨hidentity, ?_⟩
  unfold products
  rw [hkind, hidentity]
  exact List.mem_singleton.mpr rfl

theorem mem_demands_requires (hkind : d.block.kind = .requires) : r ∈ d.demands ↔
    (∃ key ∈ Handler.droppedRequirements d, r = ⟨[], key, d.origin⟩) ∨
      ∃ key v, (key, v) ∈ d.block.entries ∧ r = ⟨d.askedPaths key v, key, d.origin⟩ := by
  unfold demands
  rw [hkind]
  simp only [List.mem_append, List.mem_map, Prod.exists, eq_comm]

theorem mem_demands_components (hkind : d.block.kind = .components) : r ∈ d.demands ↔
    ∃ key f, (key, .factory f) ∈ d.componentEntries ∧ f.requires ≠ [] ∧
      r = ⟨f.requires, "components." ++ key, d.origin⟩ := by
  unfold demands
  rw [hkind, BlockKind.lowercase_of_components hkind]
  simp only [List.mem_flatMap]
  constructor
  · rintro ⟨⟨key, v⟩, hentry, hr⟩
    cases v with
    | factory f =>
        obtain ⟨hpaths, rfl⟩ := mem_demand.mp hr
        exact ⟨key, f, hentry, hpaths, rfl⟩
    | _ => cases hr
  · rintro ⟨key, f, hentry, hpaths, rfl⟩
    exact ⟨_, hentry, mem_demand.mpr ⟨hpaths, rfl⟩⟩

theorem mem_demands_custom (hkind : d.block.kind = .custom) : r ∈ d.demands ↔
    ∃ object ∈ d.objects, object.factory.requires ≠ [] ∧
      r = ⟨object.factory.requires, object.identity, d.origin⟩ := by
  unfold demands
  rw [hkind]
  simp only [List.mem_flatMap, mem_demand]

/-- A block records what it asks for, and nothing else. -/
theorem exists_asks_iff :
    (∃ s, d.Asks s r) ↔ r ∈ d.demands ∨ r ∈ markers d.origin d.products := by
  constructor
  · rintro ⟨s, h⟩
    cases h with
    | required kind entry => exact .inl ((mem_demands_requires kind).mpr (.inr ⟨_, _, entry, rfl⟩))
    | dropped kind drops => exact .inl ((mem_demands_requires kind).mpr (.inl ⟨_, drops, rfl⟩))
    | produced product asks => exact .inr (mem_markers.mpr ⟨_, _, product, asks, rfl⟩)
    | mainType describes asks =>
        exact .inl ((mem_demands_custom (mem_objects.mp describes).1).mpr ⟨_, describes, asks, rfl⟩)
    | component kind entry asks =>
        exact .inl ((mem_demands_components kind).mpr ⟨_, _, entry, asks, rfl⟩)
  · rintro (h | h)
    · cases hkind : d.block.kind with
      | requires =>
          rcases (mem_demands_requires hkind).mp h with ⟨key, hkey, rfl⟩ | ⟨key, v, hentry, rfl⟩
          · exact ⟨_, .dropped hkind hkey⟩
          · exact ⟨_, .required hkind hentry⟩
      | components =>
          obtain ⟨key, f, hentry, hpaths, rfl⟩ := (mem_demands_components hkind).mp h
          exact ⟨_, .component hkind hentry hpaths⟩
      | custom =>
          obtain ⟨object, hobject, hpaths, rfl⟩ := (mem_demands_custom hkind).mp h
          exact ⟨_, .mainType hobject hpaths⟩
      | _ => simp [demands, hkind] at h
    · obtain ⟨name, v, hproduct, hpaths, rfl⟩ := mem_markers.mp h
      exact ⟨_, .produced hproduct hpaths⟩

end Declaration

/-! ## Types -/

namespace Compilation

variable {c : Compilation} {s : DemandSource} {r : Requirement}

/-- What a layer records, in order: what stood in the ledger, what the blocks ask for in the order
in which they are dispatched, what is declared by hand. -/
theorem own_requirements (hbuiltIn : c.handlers = .builtIn) :
    c.compiled.own.ledger.requirements = c.spec.ledger.requirements ++
      ((knownBlocks c.handlers c.spec.blocks ++ customBlocks c.handlers c.spec.blocks).flatMap
        fun b => (c.site.declaration b).demands ++
          markers (c.site.declaration b).origin (c.site.declaration b).products) ++
      c.spec.demands := by
  obtain ⟨made, draft, h⟩ := c.exists_drafted
  have htakes := h.takes
  rw [hbuiltIn] at htakes
  obtain ⟨_, _, _, hrequirements⟩ := htakes.notes
  rw [h.ledger]
  show draft.ledger.requirements ++ c.spec.demands = _
  rw [hrequirements, ← List.flatMap_map (f := Prod.fst) (g := fun d : Declaration =>
    d.demands ++ markers d.origin d.products), h.declarations, List.flatMap_map]
  rfl

theorem mem_requirements_iff (hbuiltIn : c.handlers = .builtIn) :
    r ∈ c.compiled.own.ledger.requirements ↔ ∃ s, c.Asks s r := by
  rw [own_requirements hbuiltIn, List.mem_append, List.mem_append, List.mem_flatMap]
  constructor
  · rintro ((h | ⟨b, hb, h⟩) | h)
    · exact ⟨_, .given h⟩
    · obtain ⟨s, hs⟩ := Declaration.exists_asks_iff.mpr (List.mem_append.mp h)
      exact ⟨s, .block ((dispatched_perm c.handlers c.spec.blocks).mem_iff.mp hb) hs⟩
    · obtain ⟨⟨name, v⟩, hmember, hr⟩ := List.mem_flatMap.mp h
      obtain ⟨hpaths, rfl⟩ := mem_demand.mp hr
      exact ⟨_, .byHand hmember hpaths⟩
  · rintro ⟨s, h⟩
    cases h with
    | given stood => exact .inl (.inl stood)
    | @block b _ _ declared asks =>
        refine .inl (.inr ⟨b, (dispatched_perm c.handlers c.spec.blocks).mem_iff.mpr declared, ?_⟩)
        exact List.mem_append.mpr (Declaration.exists_asks_iff.mp ⟨s, asks⟩)
    | byHand member asks =>
        exact .inr (List.mem_flatMap.mpr ⟨_, member, mem_demand.mpr ⟨asks, rfl⟩⟩)

/-! ## Requirements of attributes -/

/-- A requirement of an attribute is about the member that the layer has under its identity. -/
theorem Asks.member? (hbuiltIn : c.handlers = .builtIn) (hnodup : c.spec.members.keys.Nodup)
    (h : c.Asks s r) (hs : s.isAttribute = true) :
    ∃ content, c.compiled.own.member? r.identity = some ⟨content, r.origin⟩ ∧
      match content with
      | .value v => r.paths = v.requiredPaths
      | _ => ∃ b ∈ c.spec.blocks, r.identity = Text.lowercase b.identity ∧
          ∃ object, customObject? (c.site.declaration b) = some object ∧
            r.paths = object.factory.requires := by
  cases h with
  | given stood => cases hs
  | byHand member asks => exact ⟨_, member?_of_byHand hnodup member, rfl⟩
  | @block b _ _ declared asks =>
      cases asks with
      | produced product asks =>
          exact ⟨_, member?_of_product (isBuiltInFor hbuiltIn b) declared product, rfl⟩
      | @mainType object describes asks =>
          obtain ⟨hidentity, hproduct⟩ := Declaration.product_of_mem_objects describes
          obtain ⟨_, hobject⟩ := Declaration.mem_objects.mp describes
          exact ⟨_, member?_of_product (isBuiltInFor hbuiltIn b) declared hproduct, b, declared,
            hidentity, object, hobject, rfl⟩
      | _ => cases hs

/-- Two requirements of attributes that have one identity are the same. -/
theorem Asks.eq_of_identity (hbuiltIn : c.handlers = .builtIn)
    (hnodup : c.spec.members.keys.Nodup) {other : DemandSource} {q : Requirement}
    (h : c.Asks s r) (h' : c.Asks other q) (hs : s.isAttribute = true)
    (hother : other.isAttribute = true) (hidentity : q.identity = r.identity) : q = r := by
  obtain ⟨content, hmember, hpaths⟩ := h.member? hbuiltIn hnodup hs
  obtain ⟨content', hmember', hpaths'⟩ := h'.member? hbuiltIn hnodup hother
  rw [hidentity, hmember] at hmember'
  obtain ⟨rfl, horigin⟩ : content = content' ∧ r.origin = q.origin := by
    simpa using hmember'
  have hsame : q.paths = r.paths := by
    cases content with
    | value v => rw [hpaths, hpaths']
    | _ =>
        obtain ⟨b, hb, hname, object, hobject, hpaths⟩ := hpaths
        obtain ⟨b', hb', hname', object', hobject', hpaths'⟩ := hpaths'
        rw [hidentity, hname] at hname'
        obtain rfl := List.inj_on_of_nodup_map c.blocks_nodup hb hb' hname'
        rw [hobject] at hobject'
        cases hobject'
        rw [hpaths, hpaths']
  cases q
  cases r
  dsimp only at hidentity hsame horigin
  rw [hidentity, hsame, horigin]

/-- Everything that a type asks for itself is checked on its instances, or lost to a requirement of
the same identity that the type recorded before. One of these two is no attribute's: it comes from
the requires block, from a component, or from a ledger that compilation started from. -/
theorem requirement_kept (hbuiltIn : c.handlers = .builtIn)
    (hnodup : c.spec.members.keys.Nodup) (h : c.Asks s r) (hpaths : r.paths ≠ []) :
    (r ∈ c.compiled.requirements ↔
      c.compiled.own.ledger.requirements.find? (fun q => q.identity = r.identity) = some r) ∧
    (r ∈ c.compiled.requirements ∨ ∃ other q, c.Asks other q ∧ q.identity = r.identity ∧ q ≠ r ∧
      [q, r].Sublist c.compiled.own.ledger.requirements ∧
      (s.isAttribute = false ∨ other.isAttribute = false)) := by
  have hown : r ∈ c.compiled.own.ledger.requirements := (mem_requirements_iff hbuiltIn).mpr ⟨s, h⟩
  have hfirst : ∃ q, c.compiled.own.ledger.requirements.find?
      (fun q => q.identity = r.identity) = some q := by
    refine Option.isSome_iff_exists.mp (List.find?_isSome.mpr ⟨r, hown, ?_⟩)
    simp
  obtain ⟨q, hq⟩ := hfirst
  have hkept : r ∈ c.compiled.requirements ↔ q = r := by
    unfold CompiledType.requirements CompiledType.layers
    rw [List.mem_filter, mem_firstBy_iff, List.flatMap_cons, List.find?_append, hq, Option.some_or,
      Option.some.injEq, and_iff_left]
    simpa [Requirement.isSuppression] using hpaths
  refine ⟨?_, ?_⟩
  · rw [hkept, hq, Option.some.injEq]
  · by_cases hqr : q = r
    · exact .inl (hkept.mpr hqr)
    · right
      obtain ⟨other, hother⟩ := (mem_requirements_iff hbuiltIn).mp (List.mem_of_find?_eq_some hq)
      have hidentity : q.identity = r.identity := by simpa using List.find?_some hq
      refine ⟨other, q, hother, hidentity, hqr, ?_, ?_⟩
      · exact sublist_of_find?_eq_some hq hown (by simp) (Ne.symm hqr)
      · cases hs : s.isAttribute with
        | false => exact .inl rfl
        | true =>
            cases hs' : other.isAttribute with
            | false => exact .inr rfl
            | true => exact absurd (h.eq_of_identity hbuiltIn hnodup hother hs hs' hidentity) hqr

end Compilation

/-! ## Two requirements of one identity

A callable declared by hand asks for a path, and the requires block has an entry of its name. -/

namespace Clash

def callable : Value :=
  .callable ⟨.given 0, "open", ["disk"], false, none, .giveArgs⟩

def compilation : Compilation :=
  .ofOk .builtIn 0
    { name := "Drive"
      blocks := [{ identity := "Requires", entries := [("open", .str "power")] }]
      members := [("open", callable)] }
    [] (by decide +kernel)

theorem asks_disk : compilation.Asks .byHand ⟨["disk"], "open", ⟨"Drive::open", none⟩⟩ :=
  .byHand (v := callable) List.mem_cons_self (by decide)

theorem disk_unchecked :
    (⟨["disk"], "open", ⟨"Drive::open", none⟩⟩ : Requirement) ∉
      compilation.compiled.requirements := by
  decide +kernel

theorem requirement_kept_power :
    ∃ other q, compilation.Asks other q ∧ q.identity = "open" ∧ other.isAttribute = false := by
  obtain ⟨_, hkept | ⟨other, q, hasks, hidentity, _, _, hshared⟩⟩ :=
    compilation.requirement_kept rfl (by decide) asks_disk (by decide)
  · exact absurd hkept disk_unchecked
  · rcases hshared with hshared | hshared
    · cases hshared
    · exact ⟨other, q, hasks, hidentity, hshared⟩

/-- A requirement can be lost to another one of the same type. -/
theorem requirement_lost :
    ¬ ∀ c : Compilation, c.handlers = .builtIn → c.spec.members.keys.Nodup → ∀ s r, c.Asks s r →
      r.paths ≠ [] → r ∈ c.compiled.requirements := by
  intro hclaim
  exact disk_unchecked (hclaim compilation rfl (by decide) _ _ asks_disk (by decide))

end Clash

end AppAssembly
