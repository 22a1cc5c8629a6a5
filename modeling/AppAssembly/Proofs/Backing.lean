import AppAssembly.Proofs.Bookkeeping
import AppAssembly.Proofs.Demands
import Mathlib.Data.List.Flatten
import Mathlib.Data.List.Perm.Basic

/-!
# What requirements hang on

A requirement that was recorded for an attribute hangs on the layer that has the attribute, and one
that was recorded for a component on the group that holds it. The walk along the layers goes by the
identities of the requirements alone. So what a requirement hangs on may be gone: exactly if a
layer in front has the attribute anew and asks for nothing under that identity. For a component it
may then still be there, as one that asks for nothing (`Hierarchy.requirement_backed_iff`).
-/

namespace AppAssembly

open Compile

/-! ## What has to be built -/

namespace Declaration

/-- What has to be built for a block. -/
def items (d : Declaration) : List Deferred :=
  d.groups.map .components ++ d.objects.map .custom

/-- A block has one thing to be built at most, under its name. -/
theorem eq_items {d : Declaration} {item : Deferred} (h : item ∈ d.items) :
    d.items = [item] ∧ item.identity = Text.lowercase d.block.identity ∧
      (item.identity, .deferred) ∈ d.products := by
  unfold items groups objects at h ⊢
  unfold products
  cases hkind : d.block.kind with
  | components =>
      simp only [hkind, if_true, List.map_cons, List.map_nil, reduceCtorEq, if_false,
        List.append_nil, List.mem_singleton] at h ⊢
      subst h
      exact ⟨rfl, rfl, rfl⟩
  | custom =>
      simp only [hkind, if_true, reduceCtorEq, if_false, List.map_nil, List.nil_append] at h ⊢
      cases hobject : customObject? d with
      | none => simp [hobject] at h
      | some object =>
          obtain rfl : item = .custom object := by simpa [hobject] using h
          have hidentity := (customObject?_eq_some hobject).1
          simp [Deferred.identity, hidentity]
  | _ => simp [hkind] at h

end Declaration

namespace Compilation

variable {c : Compilation} {item other : Deferred}

/-- The ledger of a layer has what its blocks want built. -/
theorem deferred_perm (hplain : c.Plain) :
    c.compiled.own.ledger.deferred.Perm
      (c.spec.blocks.flatMap fun b => (c.site.declaration b).items) := by
  obtain ⟨made, draft, h⟩ := c.exists_drafted
  have htakes := h.takes
  rw [hplain.builtIn] at htakes
  obtain ⟨_, hcomponents, hcustom, _⟩ := htakes.notes
  have hstart : (Draft.start c.spec).ledger = {} := hplain.unwritten
  rw [hstart] at hcomponents hcustom
  have hdeferred : c.compiled.own.ledger.deferred =
      (made.flatMap fun entry => entry.1.groups).map .components ++
        (made.flatMap fun entry => entry.1.objects).map .custom := by
    rw [h.ledger]
    show draft.ledger.components.map _ ++ draft.ledger.custom.map _ = _
    rw [hcomponents, hcustom]
    rfl
  have hitems : c.compiled.own.ledger.deferred.Perm
      ((made.map Prod.fst).flatMap Declaration.items) := by
    rw [hdeferred, List.map_flatMap, List.map_flatMap, List.flatMap_map]
    exact List.flatMap_append_perm _ _ _
  refine hitems.trans ?_
  rw [h.declarations, List.flatMap_map]
  exact (dispatched_perm c.handlers c.spec.blocks).flatMap_right _

theorem mem_deferred_iff (hplain : c.Plain) :
    item ∈ c.compiled.own.ledger.deferred ↔
      ∃ b ∈ c.spec.blocks, item ∈ (c.site.declaration b).items := by
  rw [(deferred_perm hplain).mem_iff, List.mem_flatMap]

/-- What has to be built for a layer is a member of it. -/
theorem member?_of_mem_deferred (hplain : c.Plain) (h : item ∈ c.compiled.own.ledger.deferred) :
    ∃ origin, c.compiled.own.member? item.identity = some ⟨.deferred, origin⟩ := by
  obtain ⟨b, hb, hitem⟩ := (mem_deferred_iff hplain).mp h
  obtain ⟨_, _, hproduct⟩ := Declaration.eq_items hitem
  exact ⟨_, member?_of_product (isBuiltInFor hplain.builtIn b) hb hproduct⟩

/-- Nothing is wanted twice under one name. -/
theorem nodup_deferred (hplain : c.Plain) :
    (c.compiled.own.ledger.deferred.map Deferred.identity).Nodup := by
  rw [((deferred_perm hplain).map Deferred.identity).nodup_iff, List.map_flatMap]
  refine List.Nodup.sublist ?_ c.blocks_nodup
  rw [List.map_eq_flatMap]
  refine List.Sublist.flatMap_right _ fun b _ => ?_
  -- a block has one thing to be built at most
  cases hitems : (c.site.declaration b).items with
  | nil => exact List.nil_sublist _
  | cons item rest =>
      obtain ⟨hone, hidentity, _⟩ := Declaration.eq_items (hitems ▸ List.mem_cons_self)
      rw [← hitems, hone, List.map_singleton, hidentity]
      exact .refl _

theorem deferred_unique (hplain : c.Plain) (h : item ∈ c.compiled.own.ledger.deferred)
    (h' : other ∈ c.compiled.own.ledger.deferred) (hidentity : item.identity = other.identity) :
    item = other :=
  List.inj_on_of_nodup_map (nodup_deferred hplain) h h' hidentity

theorem find?_deferred (hplain : c.Plain) (h : item ∈ c.compiled.own.ledger.deferred) :
    c.compiled.own.ledger.deferred.find? (fun other => other.identity = item.identity) =
      some item := by
  obtain ⟨other, hother⟩ : ∃ other, c.compiled.own.ledger.deferred.find?
      (fun other => other.identity = item.identity) = some other :=
    Option.isSome_iff_exists.mp (List.find?_isSome.mpr ⟨_, h, by simp⟩)
  rw [hother]
  refine congrArg some (deferred_unique hplain (List.mem_of_find?_eq_some hother) h ?_)
  simpa using List.find?_some hother

theorem Asks.declares (hbuiltIn : c.handlers = .builtIn) {s : DemandSource} {r : Requirement}
    (h : c.Asks s r) (hs : s.isAttribute = true) :
    (c.compiled.own.member? r.identity).isSome := by
  cases h with
  | given stood => cases hs
  | byHand member asks =>
      obtain ⟨made, draft, hdrafted⟩ := c.exists_drafted
      obtain ⟨v, _, hmember⟩ := hdrafted.member?_byHand (List.mem_map_of_mem member)
      exact Option.isSome_iff_exists.mpr ⟨_, hmember⟩
  | @block b _ _ declared asks =>
      cases asks with
      | produced product asks =>
          have hmember := member?_of_product (isBuiltInFor hbuiltIn b) declared product
          exact Option.isSome_iff_exists.mpr ⟨_, hmember⟩
      | mainType describes asks =>
          obtain ⟨_, hproduct⟩ := Declaration.product_of_mem_objects describes
          have hmember := member?_of_product (isBuiltInFor hbuiltIn b) declared hproduct
          exact Option.isSome_iff_exists.mpr ⟨_, hmember⟩
      | _ => cases hs

/-- A requirement of a component is about a factory in the group that the layer builds. -/
theorem Asks.group (hplain : c.Plain) {r : Requirement} (h : c.Asks .component r) :
    ∃ group key f, r.identity = "components." ++ key ∧ group.identity = "components" ∧
      .components group ∈ c.compiled.own.ledger.deferred ∧
      group.entries.get? key = some (.factory f) := by
  cases h with
  | @block b _ _ declared asks =>
      cases asks with
      | @component key f kind entry asks =>
          let group : ComponentGroup := ⟨"components",
            (c.site.declaration b).componentEntries.mapValues .ofValue,
            (c.site.declaration b).origin⟩
          have hgroup : group ∈ (c.site.declaration b).groups := by
            unfold Declaration.groups
            rw [if_pos kind, BlockKind.lowercase_of_components kind]
            exact List.mem_singleton.mpr rfl
          refine ⟨group, key, f, rfl, rfl, (mem_deferred_iff hplain).mpr ⟨b, declared, ?_⟩, ?_⟩
          · exact List.mem_append_left _ (List.mem_map_of_mem hgroup)
          · have hkeys : group.entries.keys = (c.site.declaration b).componentEntries.keys := by
              simp [group, Entries.keys, Entries.mapValues]
            refine Entries.get?_of_mem (hkeys ▸ c.site.nodup_componentEntries b) ?_
            exact List.mem_map.mpr ⟨_, entry, rfl⟩

/-- What a factory of a group asks for is on record. -/
theorem recorded_of_group (hplain : c.Plain) {group : ComponentGroup} {key : String} {f : Factory}
    (hgroup : .components group ∈ c.compiled.own.ledger.deferred)
    (hentry : group.entries.get? key = some (.factory f)) (hasks : f.requires ≠ []) :
    ∃ q ∈ c.compiled.own.ledger.requirements, q.identity = "components." ++ key := by
  obtain ⟨b, hb, hitem⟩ := (mem_deferred_iff hplain).mp hgroup
  have hmem : group ∈ (c.site.declaration b).groups := by
    simpa [Declaration.items] using hitem
  unfold Declaration.groups at hmem
  split at hmem
  · rename_i hkind
    obtain rfl := List.mem_singleton.mp hmem
    rw [Entries.get?_mapValues] at hentry
    obtain ⟨v, hv, hsource⟩ := Option.map_eq_some_iff.mp hentry
    obtain rfl : v = .factory f := by
      cases v <;> cases hsource
      rfl
    have hrequired : (c.site.declaration b).Asks .component
        ⟨f.requires, "components." ++ key, (c.site.declaration b).origin⟩ :=
      .component hkind (Entries.mem_of_get?_eq_some hv) hasks
    exact ⟨_, (mem_requirements_iff hplain.builtIn).mpr ⟨_, .block hb hrequired⟩, rfl⟩
  · cases hmem

end Compilation

/-! ## Who has what a requirement hangs on -/

/-- The group of components that is built has a factory under the key that an identity names. -/
def CompiledType.HasComponent (t : CompiledType) (identity : String) (f : Factory) : Prop :=
  ∃ group key, .components group ∈ t.deferred ∧ group.identity = "components" ∧
    identity = "components." ++ key ∧ group.entries.get? key = some (.factory f)

/-- What a requirement of a layer was recorded for is still there on instances of a type: the layer
has the attribute, or there is a component under the key. -/
def CompiledType.Backs (t : CompiledType) (layer : Layer) (r : Requirement) :
    DemandSource → Prop
  | .produced | .byHand | .mainType => ∃ member, t.member? r.identity = some (layer, member)
  | .component => ∃ f, t.HasComponent r.identity f
  | .given | .required | .dropped => True

/-- The attribute that a requirement hangs on. -/
def DemandSource.attribute (s : DemandSource) (r : Requirement) : String :=
  match s with
  | .component => "components"
  | _ => r.identity

/-- A layer has an attribute anew and asks for nothing under an identity. -/
structure Layer.Silences (l : Layer) (name identity : String) : Prop where
  declares : (l.member? name).isSome
  silent : ∀ q ∈ l.ledger.requirements, q.identity ≠ identity

namespace CompiledType

variable {t : CompiledType} {layer x : Layer} {r : Requirement} {name : String}

/-- Nobody in front of the layer whose requirement counts asks for something of that identity. -/
theorem silent_ahead (hnodup : (t.layers.map Layer.id).Nodup)
    (hr : (layer, r) ∈ t.requirementsBy) (hx : [x, layer].Sublist t.layers) :
    ∀ q ∈ x.ledger.requirements, q.identity ≠ r.identity := by
  intro q hq hidentity
  obtain ⟨near, far, hsplit, hnear, hids⟩ := split_of_sublist hnodup hx
  have hfirst := (List.mem_filter.mp hr).1
  rw [hsplit] at hfirst
  exact fst_ne_of_mem_firstBy Requirement.identity hnear hids hq hfirst hidentity.symm rfl

/-- A layer in front of the one whose requirement counts silences it unless it lacks the
attribute. -/
theorem not_silences_iff (hnodup : (t.layers.map Layer.id).Nodup)
    (hr : (layer, r) ∈ t.requirementsBy) (hx : [x, layer].Sublist t.layers) :
    ¬ x.Silences name r.identity ↔ x.member? name = none := by
  constructor
  · intro hnot
    cases hmember : x.member? name with
    | none => rfl
    | some member => exact absurd ⟨by simp [hmember], silent_ahead hnodup hr hx⟩ hnot
  · rintro hnone ⟨hdeclares, _⟩
    rw [hnone] at hdeclares
    cases hdeclares

theorem member?_eq_some_iff {owner : Layer} {member : Member} :
    t.member? name = some (owner, member) ↔
      t.layers.find? (fun layer => (layer.member? name).isSome) = some owner ∧
        owner.member? name = some member := by
  unfold CompiledType.member? memberAlong
  rw [findSome?_eq_some_iff_find?]
  simp only [Option.isSome_map, Option.map_eq_some_iff, Prod.mk.injEq]
  constructor
  · rintro ⟨layer, hfind, _, hmember, rfl, rfl⟩
    exact ⟨hfind, hmember⟩
  · rintro ⟨hfind, hmember⟩
    exact ⟨owner, hfind, member, hmember, rfl, rfl⟩

/-- A layer has the winning member of a name exactly if no layer in front has the name. -/
theorem owns_iff (hnodup : t.layers.Nodup) (hl : layer ∈ t.layers)
    (hname : (layer.member? name).isSome) :
    (∃ member, t.member? name = some (layer, member)) ↔
      ∀ x, [x, layer].Sublist t.layers → x.member? name = none := by
  constructor
  · rintro ⟨member, hmember⟩ x hahead
    cases hx : x.member? name with
    | none => rfl
    | some other =>
        -- the layer that is found first would stand both behind and in front
        obtain ⟨hfind, _⟩ := member?_eq_some_iff.mp hmember
        have hne : x ≠ layer := by
          rintro rfl
          simpa using hahead.nodup hnodup
        have hbehind := sublist_of_find?_eq_some hfind (hahead.mem List.mem_cons_self)
          (by simp [hx]) hne
        exact absurd hbehind (Linearization.not_sublist_swap hnodup hahead)
  · intro hnone
    obtain ⟨owner, hfind⟩ : ∃ owner,
        t.layers.find? (fun layer => (layer.member? name).isSome) = some owner :=
      Option.isSome_iff_exists.mp (List.find?_isSome.mpr ⟨layer, hl, hname⟩)
    have howner := List.find?_some hfind
    by_cases hsame : layer = owner
    · obtain ⟨member, hmember⟩ := Option.isSome_iff_exists.mp hname
      exact ⟨member, member?_eq_some_iff.mpr ⟨hsame ▸ hfind, hmember⟩⟩
    · rw [hnone owner (sublist_of_find?_eq_some hfind hl hname hsame)] at howner
      cases howner

/-- What has to be built, with the layers that want it. -/
def deferredBy (t : CompiledType) : List (Layer × Deferred) :=
  (firstBy (fun entry => entry.2.identity)
    (recorded (fun layer => layer.ledger.deferred) t.layers)).filter
      fun entry => t.defers entry.1 entry.2.identity

theorem deferred_eq (t : CompiledType) : t.deferred = t.deferredBy.map Prod.snd := by
  rw [deferred, deferredBy, ← List.filterMap_eq_map, List.filterMap_filter]
  rfl

/-- What a layer wants built is built if the layer has the winning member of its name, unless a
layer in front wants something built under the name that it lacks. -/
theorem mem_deferredBy {item : Deferred} {origin : Origin}
    (hahead : ∀ x, [x, layer].Sublist t.layers → x.member? item.identity = none →
      ∀ other ∈ x.ledger.deferred, other.identity ≠ item.identity)
    (hitem : layer.ledger.deferred.find? (fun other => other.identity = item.identity) = some item)
    (howner : t.member? item.identity = some (layer, ⟨.deferred, origin⟩)) :
    (layer, item) ∈ t.deferredBy := by
  obtain ⟨hfind, _⟩ := member?_eq_some_iff.mp howner
  obtain ⟨_, near, far, hsplit, hnear⟩ := List.find?_eq_some_iff_append.mp hfind
  refine List.mem_filter.mpr ⟨?_, by simp [defers, howner]⟩
  rw [mem_firstBy_iff, hsplit, recorded, List.flatMap_append, List.flatMap_cons,
    List.find?_append, List.find?_append, List.find?_map]
  -- no layer in front has anything of the name
  have hnone : (recorded (fun x => x.ledger.deferred) near).find?
      (fun entry => entry.2.identity = item.identity) = none := by
    rw [List.find?_eq_none]
    intro entry hentry hidentity
    obtain ⟨hx, hother⟩ := mem_recorded.mp hentry
    have hfront : [entry.1, layer].Sublist t.layers := by
      rw [hsplit]
      exact (List.singleton_sublist.mpr hx).append (List.singleton_sublist.mpr List.mem_cons_self)
    have hsilent : entry.1.member? item.identity = none := by
      simpa using hnear entry.1 hx
    exact hahead entry.1 hfront hsilent entry.2 hother (of_decide_eq_true hidentity)
  have hown : layer.ledger.deferred.find?
      ((fun entry : Layer × Deferred => decide (entry.2.identity = item.identity)) ∘
        fun other => (layer, other)) = some item := hitem
  rw [recorded] at hnone
  rw [hnone, hown]
  rfl

/-- What is built, the layer that has the winning member of its name wants built. -/
theorem owner_of_mem_deferredBy (hnodup : (t.layers.map Layer.id).Nodup) {item : Deferred}
    (h : (layer, item) ∈ t.deferredBy) :
    layer ∈ t.layers ∧ item ∈ layer.ledger.deferred ∧
      ∃ origin, t.member? item.identity = some (layer, ⟨.deferred, origin⟩) := by
  obtain ⟨hfirst, hdefers⟩ := List.mem_filter.mp h
  obtain ⟨hlayer, hrecorded⟩ := mem_recorded.mp (mem_of_mem_firstBy hfirst)
  refine ⟨hlayer, hrecorded, ?_⟩
  unfold defers at hdefers
  split at hdefers
  · rename_i owner origin hmember
    have howner := List.mem_of_find?_eq_some (member?_eq_some_iff.mp hmember).1
    obtain rfl := List.inj_on_of_nodup_map hnodup howner hlayer (by simpa using hdefers)
    exact ⟨origin, hmember⟩
  · cases hdefers

theorem owner_of_mem_deferred (hnodup : (t.layers.map Layer.id).Nodup) {item : Deferred}
    (h : item ∈ t.deferred) :
    ∃ owner ∈ t.layers, item ∈ owner.ledger.deferred ∧
      ∃ member, t.member? item.identity = some (owner, member) := by
  rw [t.deferred_eq] at h
  obtain ⟨⟨owner, _⟩, hby, rfl⟩ := List.mem_map.mp h
  obtain ⟨howner, hrecorded, origin, hmember⟩ := owner_of_mem_deferredBy hnodup hby
  exact ⟨owner, howner, hrecorded, _, hmember⟩

end CompiledType

/-- What is built is what a layer wants built that has the winning member of its name. -/
theorem Hierarchy.mem_deferredBy_iff {cs : List Compilation} (h : Hierarchy cs)
    (hplain : ∀ c ∈ cs, c.Plain) {e : Compilation} (he : e ∈ cs) {layer : Layer}
    {item : Deferred} :
    (layer, item) ∈ e.compiled.deferredBy ↔ item ∈ layer.ledger.deferred ∧
      ∃ origin, e.compiled.member? item.identity = some (layer, ⟨.deferred, origin⟩) := by
  constructor
  · intro hby
    exact (CompiledType.owner_of_mem_deferredBy (h.chain he).nodup hby).2
  · rintro ⟨hitem, origin, howner⟩
    have hlayer := List.mem_of_find?_eq_some (CompiledType.member?_eq_some_iff.mp howner).1
    obtain ⟨d, hd, rfl, _⟩ := (h.chain he).made layer hlayer
    refine CompiledType.mem_deferredBy (fun x hx hsilent other hother hidentity => ?_)
      (Compilation.find?_deferred (hplain d hd) hitem) howner
    obtain ⟨c, hc, rfl, _⟩ := (h.chain he).made x (hx.mem List.mem_cons_self)
    obtain ⟨origin, hmember⟩ := Compilation.member?_of_mem_deferred (hplain c hc) hother
    rw [hidentity, hsilent] at hmember
    cases hmember

theorem Hierarchy.mem_deferred {cs : List Compilation} (h : Hierarchy cs)
    (hplain : ∀ c ∈ cs, c.Plain) {e d : Compilation} (he : e ∈ cs) (hd : d ∈ cs) {item : Deferred}
    (hitem : item ∈ d.compiled.own.ledger.deferred)
    (howner : ∃ member, e.compiled.member? item.identity = some (d.compiled.own, member)) :
    item ∈ e.compiled.deferred := by
  obtain ⟨origin, hmember⟩ := Compilation.member?_of_mem_deferred (hplain d hd) hitem
  obtain ⟨member, howner⟩ := howner
  obtain rfl : member = ⟨.deferred, origin⟩ := by
    have hown := (CompiledType.member?_eq_some_iff.mp howner).2
    rw [hmember] at hown
    exact (Option.some.inj hown).symm
  rw [e.compiled.deferred_eq]
  exact List.mem_map_of_mem ((h.mem_deferredBy_iff hplain he).mpr ⟨hitem, origin, howner⟩)

/-- A component that only another layer than the recording one can have asks for nothing. -/
theorem Hierarchy.component_asks_nothing {cs : List Compilation} (h : Hierarchy cs)
    (hplain : ∀ c ∈ cs, c.Plain) {e : Compilation} (he : e ∈ cs) {layer x : Layer}
    {r : Requirement} (hby : (layer, r) ∈ e.compiled.requirementsBy)
    (hlayer : layer ∈ e.compiled.layers) (hgroup : (layer.member? "components").isSome)
    (hahead : [x, layer].Sublist e.compiled.layers) (hx : (x.member? "components").isSome)
    {f : Factory} (hf : e.compiled.HasComponent r.identity f) : f.requires = [] := by
  have hids := (h.chain he).nodup
  have hnodup : e.compiled.layers.Nodup := List.Nodup.of_map Layer.id hids
  obtain ⟨group, key, hdeferred, hname, hidentity, hentry⟩ := hf
  obtain ⟨owner, howner, hrecorded, member, hmember⟩ :=
    CompiledType.owner_of_mem_deferred hids hdeferred
  have hname : (Deferred.components group).identity = "components" := hname
  rw [hname] at hmember
  have hne : layer ≠ owner := by
    rintro rfl
    have hnone := (CompiledType.owns_iff hnodup hlayer hgroup).mp ⟨_, hmember⟩ x hahead
    rw [hnone] at hx
    cases hx
  have hfind := (CompiledType.member?_eq_some_iff.mp hmember).1
  have hfront := sublist_of_find?_eq_some hfind hlayer hgroup hne
  -- the owner of the group stands in front, so it has nothing of the identity on record
  by_contra hasks
  obtain ⟨c, hc, rfl, _⟩ := (h.chain he).made owner howner
  obtain ⟨q, hq, hsame⟩ := Compilation.recorded_of_group (hplain c hc) hrecorded hentry hasks
  exact CompiledType.silent_ahead hids hby hfront q hq (hsame.trans hidentity.symm)

/-- When a requirement is backed. What some layer recorded for an attribute is checked on a type
only for an attribute that this layer has on it, unless a layer in front has the attribute anew and
asks for nothing. What was recorded for a component is checked only for a component, unless this is
so for the group; even then there may be a component, one that asks for nothing. -/
theorem Hierarchy.requirement_backed_iff {cs : List Compilation} (h : Hierarchy cs)
    (hplain : ∀ c ∈ cs, c.Plain) {e : Compilation} (he : e ∈ cs) {r : Requirement}
    (hr : r ∈ e.compiled.requirements) :
    ∃ d ∈ cs, (d.compiled.own, r) ∈ e.compiled.requirementsBy ∧ (∃ s, d.Asks s r) ∧
      ∀ s, d.Asks s r →
        (s.isAttribute = true → (e.compiled.Backs d.compiled.own r s ↔
          ∀ x, [x, d.compiled.own].Sublist e.compiled.layers →
            ¬ x.Silences (s.attribute r) r.identity)) ∧
        (s = .component → (e.compiled.Backs d.compiled.own r s ↔
          (∀ x, [x, d.compiled.own].Sublist e.compiled.layers →
            ¬ x.Silences (s.attribute r) r.identity) ∨
          ∃ f, e.compiled.HasComponent r.identity f ∧ f.requires = [])) := by
  rw [e.compiled.requirements_eq] at hr
  obtain ⟨⟨layer, q⟩, hby, hq⟩ := List.mem_map.mp hr
  obtain rfl : q = r := hq
  have hrecorded := mem_recorded.mp (mem_of_mem_firstBy (List.mem_filter.mp hby).1)
  obtain ⟨d, hd, rfl, _⟩ := (h.chain he).made layer hrecorded.1
  have hids := (h.chain he).nodup
  have hnodup : e.compiled.layers.Nodup := List.Nodup.of_map Layer.id hids
  refine ⟨d, hd, hby, (Compilation.mem_requirements_iff (hplain d hd).builtIn).mp hrecorded.2,
    fun s hs => ⟨fun hattribute => ?_, ?_⟩⟩
  · have hbacks : e.compiled.Backs d.compiled.own q s ↔
        ∃ member, e.compiled.member? q.identity = some (d.compiled.own, member) := by
      cases s with
      | produced | byHand | mainType => exact Iff.rfl
      | _ => cases hattribute
    have hname : s.attribute q = q.identity := by
      cases s with
      | component => cases hattribute
      | _ => rfl
    have hdeclares := hs.declares (hplain d hd).builtIn hattribute
    rw [hbacks, hname, CompiledType.owns_iff hnodup hrecorded.1 hdeclares]
    exact forall_congr' fun x => forall_congr' fun hahead =>
      (CompiledType.not_silences_iff hids hby hahead).symm
  · rintro rfl
    obtain ⟨group, key, f, hidentity, hname, hdeferred, hentry⟩ := hs.group (hplain d hd)
    obtain ⟨origin, hmember⟩ := Compilation.member?_of_mem_deferred (hplain d hd) hdeferred
    have hname' : (Deferred.components group).identity = "components" := hname
    rw [hname'] at hmember
    have hgroup : (d.compiled.own.member? "components").isSome := by simp [hmember]
    constructor
    · rintro ⟨g, hg⟩
      by_cases hnot : ∀ x, [x, d.compiled.own].Sublist e.compiled.layers →
          ¬ x.Silences (DemandSource.component.attribute q) q.identity
      · exact .inl hnot
      · right
        push Not at hnot
        obtain ⟨x, hahead, hx⟩ := hnot
        exact ⟨g, hg, h.component_asks_nothing hplain he hby hrecorded.1 hgroup hahead
          hx.declares hg⟩
    · rintro (hnot | ⟨g, hg, _⟩)
      · refine ⟨f, group, key, h.mem_deferred hplain he hd hdeferred ?_, hname, hidentity, hentry⟩
        rw [hname', CompiledType.owns_iff hnodup hrecorded.1 hgroup]
        exact fun x hahead =>
          (CompiledType.not_silences_iff hids hby hahead).mp (hnot x hahead)
      · exact ⟨g, hg⟩

/-! ## What is left of a base

A type nulls out by hand what its base declares by hand, and drops the component of the base. Both
asked for a path that nothing needs any more. -/

namespace Leftover

def drive : Factory :=
  ⟨.given 0, "Drive", [], ["disk"], none, .constant (.int 3)⟩

def opener : Value :=
  .callable ⟨.given 1, "open", ["disk"], false, none, .giveArgs⟩

def base : Compilation :=
  .ofOk .builtIn 0
    { name := "Base"
      blocks := [{ identity := "Components", entries := [("drive", .factory drive)] }]
      members := [("open", opener)] }
    [] (by decide +kernel)

def derived : Compilation :=
  .ofOk .builtIn 1
    { name := "Derived"
      blocks := [{ identity := "Components", entries := [("drive", .null)] }]
      members := [("open", .null)] }
    [base.compiled] (by decide +kernel)

theorem hierarchy : Hierarchy [derived, base] := by
  refine .compile (.compile .empty ?_ ?_) ?_ ?_
  · simp
  · simp [base, Compilation.ofOk]
  · simp [base, derived, Compilation.ofOk]
  · simp [derived, Compilation.ofOk]

theorem plain : ∀ c ∈ [derived, base], c.Plain := by
  simp only [List.mem_cons, List.not_mem_nil, or_false, forall_eq_or_imp, forall_eq]
  exact ⟨⟨rfl, rfl⟩, ⟨rfl, rfl⟩⟩

/-- What the callable of the base asks for, and what the factory does. -/
def opened : Requirement :=
  ⟨["disk"], "open", ⟨"Base::open", none⟩⟩

def built : Requirement :=
  ⟨["disk"], "components.drive", ⟨"Base.Components", none⟩⟩

theorem requirements_derived : derived.compiled.requirements = [built, opened] := by
  decide +kernel

theorem asks_opened : base.Asks .byHand opened :=
  .byHand (v := opener) List.mem_cons_self (by decide)

/-- Only the base has recorded anything. -/
theorem eq_base {d : Compilation} (hd : d ∈ [derived, base]) {r : Requirement}
    (hr : (d.compiled.own, r) ∈ derived.compiled.requirementsBy) : d = base := by
  have hrecorded := (mem_recorded.mp (mem_of_mem_firstBy (List.mem_filter.mp hr).1)).2
  simp only [List.mem_cons, List.not_mem_nil, or_false] at hd
  rcases hd with rfl | rfl
  · have hnone : derived.compiled.own.ledger.requirements = [] := by decide +kernel
    simp only [hnone, List.not_mem_nil] at hrecorded
  · rfl

theorem base_behind :
    [derived.compiled.own, base.compiled.own].Sublist derived.compiled.layers := by
  have hbase := hierarchy.base_sublist (c := derived) List.mem_cons_self List.mem_cons_self
  exact ((List.singleton_sublist.mpr (hbase.mem List.mem_cons_self)).cons_cons _)

theorem requirement_backed_iff_derived :
    derived.compiled.own.Silences "open" "open" ∧
      ¬ derived.compiled.Backs base.compiled.own opened .byHand := by
  have hsilences : derived.compiled.own.Silences "open" "open" :=
    ⟨by decide +kernel, by decide +kernel⟩
  refine ⟨hsilences, fun hbacks => ?_⟩
  have hr : opened ∈ derived.compiled.requirements := by
    rw [requirements_derived]
    simp
  obtain ⟨d, hd, hby, _, hall⟩ := hierarchy.requirement_backed_iff plain List.mem_cons_self hr
  obtain rfl := eq_base hd hby
  exact ((hall .byHand asks_opened).1 rfl).mp hbacks _ base_behind hsilences

/-- A requirement can outlive what it was recorded for. -/
theorem requirement_outlives :
    ¬ ∀ cs, Hierarchy cs → (∀ c ∈ cs, c.Plain) → ∀ e ∈ cs, ∀ d ∈ cs, ∀ s r,
      (d.compiled.own, r) ∈ e.compiled.requirementsBy → d.Asks s r →
        e.compiled.Backs d.compiled.own r s := by
  intro hclaim
  obtain ⟨⟨layer, q⟩, hby, hq⟩ : ∃ entry ∈ derived.compiled.requirementsBy, entry.2 = opened := by
    apply List.mem_map.mp
    rw [← CompiledType.requirements_eq, requirements_derived]
    simp
  obtain rfl : q = opened := hq
  have hlayer := (mem_recorded.mp (mem_of_mem_firstBy (List.mem_filter.mp hby).1)).1
  obtain ⟨d, hd, rfl, _⟩ := (hierarchy.chain List.mem_cons_self).made layer hlayer
  obtain rfl := eq_base hd hby
  obtain ⟨member, hmember⟩ := hclaim _ hierarchy plain derived List.mem_cons_self _ hd .byHand _ hby
    asks_opened
  have hid : (derived.compiled.member? "open").map (fun entry => entry.1.id) = some 1 := by
    decide +kernel
  change derived.compiled.member? "open" = _ at hmember
  rw [hmember] at hid
  have hbase : base.compiled.own.id = 0 := base.own_id
  simp [hbase] at hid

end Leftover

end AppAssembly
