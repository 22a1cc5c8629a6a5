import AppAssembly.Proofs.Groups

/-!
# The two merges of a components block

A components block is merged twice: its handler merges it into the group that is built for every
instance, without nulls, and the compiler into the block that later types inherit, where nulls stay.
Each has its own condition on the flags. The merges agree (`Compilation.merges_agree`): whatever the
type extends, the group has the entries that are inherited from the block, apart from the nulls, and
the block asks for what the factories among them require.
-/

namespace AppAssembly

open Compile

/-! ## Values and where components come from -/

/-- The sources in a group for the values of a block: none for a null, and for anything else one
in its place. -/
inductive ComponentGroup.Lists :
    Entries String Value → Entries String ComponentSource → Prop where
  | nil : Lists [] []
  | null {key : String} {values : Entries String Value} {sources : Entries String ComponentSource}
      (rest : Lists values sources) : Lists ((key, .null) :: values) sources
  | factory {key : String} {f : Factory} {values : Entries String Value}
      {sources : Entries String ComponentSource} (rest : Lists values sources) :
      Lists ((key, .factory f) :: values) ((key, .factory f) :: sources)
  | value {key : String} {v : Value} {values : Entries String Value}
      {sources : Entries String ComponentSource} (present : v ≠ .null)
      (ready : ∀ f, v ≠ .factory f) (rest : Lists values sources) :
      Lists ((key, v) :: values) ((key, .value v) :: sources)

theorem ComponentGroup.lists_ofValue (values : Entries String Value) :
    Lists values (Entries.mapValues .ofValue (values.filter fun (_, v) => !v.isNull)) := by
  induction values with
  | nil => exact .nil
  | cons entry rest ih =>
      obtain ⟨key, v⟩ := entry
      cases v with
      | null => exact .null ih
      | factory f => exact .factory ih
      | _ => exact .value (by simp) (by simp) ih

/-! ## Other blocks -/

/-- A ledger keeps its groups and requirements, and the groups that it gets are of some kind. -/
structure Ledger.Grows (others : ComponentGroup → Prop) (l after : Ledger) : Prop where
  components : ∃ groups, after.components = l.components ++ groups ∧ ∀ g ∈ groups, others g
  requirements : l.requirements ⊆ after.requirements

/-- Answering to a declaration, a handler takes nothing away from the ledger, and the groups that it
records are of some kind. -/
def Handler.Adds (h : Handler) (d : Declaration) (others : ComponentGroup → Prop) : Prop :=
  ∀ l products after, h.handle d l = .ok (products, after) → l.Grows others after

section

variable {others : ComponentGroup → Prop} {l middle after : Ledger}

theorem Ledger.Grows.refl (others : ComponentGroup → Prop) (l : Ledger) : l.Grows others l :=
  ⟨⟨[], (List.append_nil _).symm, by simp⟩, List.Subset.refl _⟩

theorem Ledger.Grows.trans (h : l.Grows others middle) (h' : middle.Grows others after) :
    l.Grows others after := by
  obtain ⟨near, hnear, hallowed⟩ := h.components
  obtain ⟨far, hfar, hallowed'⟩ := h'.components
  refine ⟨⟨near ++ far, by rw [hfar, hnear, List.append_assoc], ?_⟩,
    List.Subset.trans h.requirements h'.requirements⟩
  intro g hg
  rcases List.mem_append.mp hg with hg | hg
  · exact hallowed g hg
  · exact hallowed' g hg

/-- More requirements, and nothing else that counts here. -/
theorem Ledger.Grows.of_eq {more : List Requirement} (hgroups : after.components = l.components)
    (hrequirements : after.requirements = l.requirements ++ more) : l.Grows others after :=
  ⟨⟨[], by rw [hgroups, List.append_nil], by simp⟩, hrequirements ▸ List.subset_append_left _ _⟩

/-- No built-in handler of another block records a group. -/
theorem Handler.adds_of_builtIn {d : Declaration} {h : Handler}
    (hne : Text.lowercase d.block.identity ≠ "components")
    (hfind : HandlerRegistry.builtIn.find? d.block.identity = some h) : h.Adds d others := by
  intro l products after hhandle
  rw [HandlerRegistry.find?_builtIn] at hfind
  obtain ⟨_, hrecords⟩ := handle_contributes hfind hhandle
  have hgroups : d.groups = [] :=
    if_neg fun hkind => hne (BlockKind.lowercase_of_components hkind)
  refine .of_eq ?_ hrecords.requirements
  rw [hrecords.components, hgroups, List.append_nil]

end

/-! ## The block of a layer -/

theorem Block.kind_of_lowercase {b : Block} (h : Text.lowercase b.identity = "components") :
    b.kind = .components := by
  unfold Block.kind BlockKind.ofName
  rw [h]
  rfl

theorem lowercase_components : Text.lowercase "components" = "components" := by
  decide +kernel

theorem HandlerRegistry.isBuiltInFor_components {handlers : HandlerRegistry} {b : Block}
    (hcomponents : handlers.find? "components" = some Handler.components)
    (hname : Text.lowercase b.identity = "components") : handlers.IsBuiltInFor b := by
  unfold IsBuiltInFor
  rw [find?_congr (hname.trans lowercase_components.symm), hcomponents,
    Block.kind_of_lowercase hname]
  rfl

namespace Declaration

variable {d : Declaration}

theorem products_components (hkind : d.block.kind = .components) :
    d.products = [("components", .deferred)] := by
  unfold products
  rw [hkind, BlockKind.lowercase_of_components hkind]

theorem groups_components (hkind : d.block.kind = .components) : d.groups = [d.group] :=
  if_pos hkind

/-- A component asks for something at most once, under its own name. -/
theorem nodup_demands (hkind : d.block.kind = .components) (hkeys : d.componentEntries.keys.Nodup) :
    (d.demands.map Requirement.identity).Nodup := by
  have hdemand : ∀ (paths : List String) (identity : String),
      ((demand paths identity d.origin).map Requirement.identity).Sublist [identity] := by
    intro paths identity
    unfold demand
    cases paths with
    | nil => exact List.nil_sublist _
    | cons path rest => exact List.Sublist.refl _
  have hsublist : (d.demands.map Requirement.identity).Sublist
      (d.componentEntries.keys.map fun key => "components" ++ "." ++ key) := by
    unfold demands
    rw [hkind, BlockKind.lowercase_of_components hkind]
    dsimp only
    generalize d.componentEntries = entries
    induction entries with
    | nil => exact List.Sublist.refl _
    | cons entry rest ih =>
        obtain ⟨key, v⟩ := entry
        rw [List.flatMap_cons, List.map_append]
        show List.Sublist _ (["components" ++ "." ++ key] ++ List.map _ (Entries.keys rest))
        refine List.Sublist.append ?_ ih
        cases v with
        | factory f => exact hdemand f.requires _
        | _ => exact List.nil_sublist _
  exact hsublist.nodup (hkeys.map fun _ _ hsame => String.append_right_inj _ |>.mp hsame)

end Declaration

/-- All that the handler does: it defers the group, describes it, and asks for what its factories
require. -/
theorem Handler.components_handle {d : Declaration} (hkind : d.block.kind = .components)
    (l : Ledger) :
    components.handle d l = .ok ([("components", .deferred)],
      { l with
        components := l.components ++ [d.group]
        requirements := l.requirements ++ d.demands }) := by
  have hidentity := BlockKind.lowercase_of_components hkind
  unfold components Declaration.demands Declaration.group
  dsimp only
  rw [recordComponentFactories_eq, hkind, hidentity]
  rfl

namespace Compile.Draft

variable {handlers : HandlerRegistry} {others : ComponentGroup → Prop} {d : Declaration}
  {draft next last : Draft} {products : Products} {made : List (Declaration × Products)}

/-- Placing products records no groups. -/
theorem Takes.exists_grows (h : draft.Takes handlers d products next)
    (others : ComponentGroup → Prop) :
    ∃ after, handlers.Answers d draft.ledger products after ∧ after.Grows others next.ledger := by
  obtain ⟨after, hanswers, hledger⟩ := h.exists_answers
  refine ⟨after, hanswers, ?_⟩
  rw [hledger]
  exact .of_eq rfl rfl

theorem Takes.grows (h : draft.Takes handlers d products next)
    (hadds : ∀ h, handlers.find? d.block.identity = some h → h.Adds d others) :
    draft.ledger.Grows others next.ledger := by
  obtain ⟨after, hanswers, hplaced⟩ := h.exists_grows others
  refine Ledger.Grows.trans ?_ hplaced
  cases hanswers with
  | handled found handled => exact hadds _ found _ _ _ handled
  | described _ _ =>
      rw [Ledger.recordFactory_eq]
      exact .of_eq rfl rfl

theorem TakesAll.grows (h : draft.TakesAll handlers made last)
    (hadds : ∀ entry ∈ made, ∀ h, handlers.find? entry.1.block.identity = some h →
      h.Adds entry.1 others) : draft.ledger.Grows others last.ledger := by
  induction h with
  | done => exact .refl ..
  | @next draft middle last d products made first _ ih =>
      have hfirst : draft.ledger.Grows others middle.ledger :=
        first.grows (hadds (d, products) List.mem_cons_self)
      exact hfirst.trans (ih fun entry hentry => hadds entry (List.mem_cons_of_mem _ hentry))

end Compile.Draft

namespace Compilation

variable {c : Compilation} {b : Block} {others : ComponentGroup → Prop}

/-- The handlers of all other blocks take nothing away from the ledger, which they are given to add
to, and the groups that they record are of some kind. -/
def OthersAdd (c : Compilation) (others : ComponentGroup → Prop) : Prop :=
  ∀ b ∈ c.spec.blocks, Text.lowercase b.identity ≠ "components" → ∀ h,
    c.handlers.find? b.identity = some h → h.Adds (c.site.declaration b) others

/-- A components block gets the name, so no other block does. -/
theorem Drafted.products_components {made : List (Declaration × Products)} {draft : Draft}
    (h : c.Drafted made draft)
    (hcomponents : c.handlers.find? "components" = some Handler.components)
    (hname : Text.lowercase b.identity = "components") {products : Products}
    (hentry : (c.site.declaration b, products) ∈ made) :
    products = [("components", .deferred)] := by
  have hbuiltIn : c.handlers.IsBuiltInFor b :=
    HandlerRegistry.isBuiltInFor_components hcomponents hname
  have hkind : (c.site.declaration b).block.kind = .components := Block.kind_of_lowercase hname
  rw [h.takes.products_eq hentry hbuiltIn, Declaration.products_components hkind]

/-- The ledger before and after the components block was handled. What the other blocks add to it
comes before and after. -/
theorem Drafted.exists_records {made : List (Declaration × Products)} {draft : Draft}
    (h : c.Drafted made draft) (hb : b ∈ c.spec.blocks)
    (hname : Text.lowercase b.identity = "components")
    (hcomponents : c.handlers.find? "components" = some Handler.components)
    (hothers : c.OthersAdd others) :
    ∃ before after, c.spec.ledger.Grows others before ∧
      (c.site.declaration b).Records before after ∧ after.Grows others draft.ledger := by
  have hadds : ∀ entry ∈ made, "components" ∉ Entries.keys entry.2 → ∀ h,
      c.handlers.find? entry.1.block.identity = some h → h.Adds entry.1 others := by
    rintro ⟨_, products⟩ hentry hspared
    obtain ⟨other, hother, rfl⟩ := h.exists_block hentry
    refine hothers other hother fun hsame => hspared ?_
    rw [h.products_components hcomponents hsame hentry]
    exact List.mem_cons_self
  have hbuiltIn : c.handlers.IsBuiltInFor (c.site.declaration b).block :=
    HandlerRegistry.isBuiltInFor_components hcomponents hname
  obtain ⟨products, hentry⟩ := h.exists_products hb
  obtain rfl := h.products_components hcomponents hname hentry
  have hkey : "components" ∈ Entries.keys [(("components", .deferred) : String × Content)] :=
    List.mem_cons_self
  obtain ⟨near, far, before, after, rfl, hnear, htakes, hfar, hbefore, hafter⟩ :=
    h.takes.apart hentry hkey
  have hearlier : c.spec.ledger.Grows others before.ledger :=
    hnear.grows fun entry hentry =>
      hadds entry (List.mem_append_left _ hentry) (hbefore entry hentry)
  have hlater : after.ledger.Grows others draft.ledger :=
    hfar.grows fun entry hentry =>
      hadds entry (List.mem_append_right _ (List.mem_cons_of_mem _ hentry)) (hafter entry hentry)
  obtain ⟨handled, hanswers, hplaced⟩ := htakes.exists_grows others
  exact ⟨before.ledger, handled, hearlier, (hanswers.contributes hbuiltIn).2, hplaced.trans hlater⟩

/-- What the components block records is in the ledger of the layer. -/
theorem own_components (hb : b ∈ c.spec.blocks) (hname : Text.lowercase b.identity = "components")
    (hcomponents : c.handlers.find? "components" = some Handler.components)
    (hothers : c.OthersAdd others) :
    (∃ earlier later, c.compiled.own.ledger.components =
        c.spec.ledger.components ++ earlier ++ (c.site.declaration b).group :: later ∧
      ∀ g ∈ earlier ++ later, others g) ∧
    (c.site.declaration b).demands ⊆ c.compiled.own.ledger.requirements := by
  obtain ⟨made, draft, h⟩ := c.exists_drafted
  obtain ⟨before, after, hearlier, hrecords, hlater⟩ :=
    h.exists_records hb hname hcomponents hothers
  have hkind : (c.site.declaration b).block.kind = .components := Block.kind_of_lowercase hname
  have hgroups : c.compiled.own.ledger.components = draft.ledger.components := by
    rw [h.ledger]
    rfl
  have hrequired : c.compiled.own.ledger.requirements =
      draft.ledger.requirements ++ c.spec.demands := by
    rw [h.ledger]
    rfl
  obtain ⟨earlier, hnear, hnearAllowed⟩ := hearlier.components
  obtain ⟨later, hfar, hfarAllowed⟩ := hlater.components
  refine ⟨⟨earlier, later, ?_, ?_⟩, ?_⟩
  · rw [hgroups, hfar, hrecords.components, Declaration.groups_components hkind, hnear]
    simp only [List.append_assoc, List.singleton_append]
  · intro g hg
    rcases List.mem_append.mp hg with hg | hg
    · exact hnearAllowed g hg
    · exact hfarAllowed g hg
  · intro r hr
    have hafter : r ∈ after.requirements := by
      rw [hrecords.requirements]
      exact List.mem_append_right _ hr
    rw [hrequired]
    exact List.mem_append_left _ (hlater.requirements hafter)

/-- The merges of a components block agree, whatever the type extends. The group that the layer
records has a source for every value of the block that later types inherit, in order and apart from
the nulls, and the handler asks for what the factories among these values require. Other groups come
from other blocks, and the built-in handlers of these have none (`Handler.adds_of_builtIn`). -/
theorem merges_agree (hb : b ∈ c.spec.blocks) (hname : Text.lowercase b.identity = "components")
    (hcomponents : c.handlers.find? "components" = some Handler.components)
    (hothers : c.OthersAdd others) (hdistinct : b.Distinct) :
    ∃ merged group earlier later added,
      c.compiled.own.block? "components" = some merged ∧ merged.entries.keys.Nodup ∧
      c.compiled.own.ledger.components =
        c.spec.ledger.components ++ earlier ++ group :: later ∧
      (∀ g ∈ earlier ++ later, others g) ∧
      group.identity = "components" ∧ group.origin = b.origin c.spec.name ∧
      ComponentGroup.Lists merged.entries group.entries ∧
      (∀ l, Handler.components.handle (c.site.declaration b) l =
        .ok ([("components", .deferred)],
          { l with
            components := l.components ++ [group]
            requirements := l.requirements ++ added })) ∧
      added ⊆ c.compiled.own.ledger.requirements ∧ (added.map Requirement.identity).Nodup ∧
      ∀ r, r ∈ added ↔ ∃ key f, merged.entries.get? key = some (.factory f) ∧ f.requires ≠ [] ∧
        r = ⟨f.requires, "components." ++ key, b.origin c.spec.name⟩ := by
  have hkind : (c.site.declaration b).block.kind = .components := Block.kind_of_lowercase hname
  have hlower : Text.lowercase b.identity = Text.lowercase "components" :=
    hname.trans lowercase_components.symm
  obtain ⟨merged, hmerged, hentries⟩ := c.block?_of_mem hb
  rw [Site.mergedEntries_components hlower hcomponents hdistinct] at hentries
  obtain ⟨⟨earlier, later, hgroups, hallowed⟩, hrequired⟩ :=
    own_components hb hname hcomponents hothers
  have hnodup : merged.entries.keys.Nodup := hentries ▸ c.site.nodup_mergedEntries b
  refine ⟨merged, (c.site.declaration b).group, earlier, later, (c.site.declaration b).demands, ?_,
    hnodup, hgroups, hallowed, hname, rfl, ?_, Handler.components_handle hkind, hrequired, ?_, ?_⟩
  · rw [← hmerged]
    unfold Layer.block?
    rw [hlower]
  · rw [hentries]
    exact ComponentGroup.lists_ofValue _
  · exact Declaration.nodup_demands hkind (c.site.nodup_componentEntries b)
  · intro r
    have hfactory : ∀ key f, (key, .factory f) ∈ (c.site.declaration b).componentEntries ↔
        merged.entries.get? key = some (.factory f) := by
      intro key f
      have hmem : (key, .factory f) ∈ (c.site.declaration b).componentEntries ↔
          (key, .factory f) ∈ merged.entries := by
        rw [hentries]
        exact ⟨List.mem_of_mem_filter, fun hentry => List.mem_filter.mpr ⟨hentry, rfl⟩⟩
      exact hmem.trans ⟨Entries.get?_of_mem hnodup, Entries.mem_of_get?_eq_some⟩
    simp only [Declaration.mem_demands_components hkind, hfactory]
    rfl

end Compilation

/-! ## A group of two lines

The type drops the fan that both bases have, keeps a disk of one and a tape of the other, and adds
two components of its own. -/

namespace Machine

def disk : Factory :=
  ⟨.given 0, "Disk", [], ["power"], none, .constant (.int 3)⟩

def tape : Factory :=
  ⟨.given 1, "Tape", [], ["power", "reel"], none, .constant (.int 4)⟩

def lamp : Factory :=
  ⟨.given 2, "Lamp", [], [], none, .constant (.int 5)⟩

def stored : Block :=
  { identity := "Components", entries := [("disk", .factory disk), ("fan", .int 1)] }

def wound : Block :=
  { identity := "components", entries := [("fan", .int 2), ("tape", .factory tape)] }

def parts : Block :=
  { identity := "COMPONENTS",
    entries := [("fan", .null), ("lamp", .factory lamp), ("port", .int 4)] }

def supply : Block :=
  { identity := "Power", mainType := some lamp }

def left : Compilation :=
  .ofOk .builtIn 0 { name := "Left", blocks := [stored] } [] (by decide +kernel)

def right : Compilation :=
  .ofOk .builtIn 1 { name := "Right", blocks := [wound] } [] (by decide +kernel)

def both : Compilation :=
  .ofOk .builtIn 2 { name := "Both", blocks := [supply, parts] } [left.compiled, right.compiled]
    (by decide +kernel)

/-- What a component of a block requires. -/
def asked (merged : EffectiveBlock) (key : String) : List String :=
  match merged.entries.get? key with
  | some (.factory f) => f.requires
  | _ => []

theorem exists_factory {merged : EffectiveBlock} {key : String} (h : asked merged key ≠ []) :
    ∃ f, merged.entries.get? key = some (.factory f) ∧ f.requires = asked merged key := by
  unfold asked at h ⊢
  split at h
  · rename_i f hfactory
    exact ⟨f, hfactory, rfl⟩
  · exact absurd rfl h

theorem merges_agree_both : ∃ merged group,
    both.compiled.own.block? "components" = some merged ∧
    merged.entries.keys = ["disk", "fan", "tape", "lamp", "port"] ∧
    both.compiled.own.ledger.components = [group] ∧
    group.entries.keys = ["disk", "tape", "lamp", "port"] ∧
    ComponentGroup.Lists merged.entries group.entries ∧
    ⟨["power", "reel"], "components.tape", ⟨"Both.COMPONENTS", none⟩⟩ ∈
      both.compiled.own.ledger.requirements := by
  have hothers : both.OthersAdd fun _ => False :=
    fun _ _ hne _ hfind => Handler.adds_of_builtIn hne hfind
  have hcomponents : both.handlers.find? "components" = some Handler.components := by
    show HandlerRegistry.builtIn.find? "components" = _
    rw [HandlerRegistry.find?_builtIn]
    rfl
  have hmem : parts ∈ both.spec.blocks := List.mem_cons_of_mem _ List.mem_cons_self
  have hdistinct : parts.Distinct := by
    unfold Block.Distinct
    decide
  obtain ⟨merged, group, earlier, later, added, hmerged, _, hgroups, hnone, _, _, hlists, _,
    hrequired, _, hadded⟩ :=
    Compilation.merges_agree hmem (by decide +kernel) hcomponents hothers hdistinct
  -- the other block records no groups
  obtain ⟨rfl, rfl⟩ := List.append_eq_nil_iff.mp (List.eq_nil_iff_forall_not_mem.mpr hnone)
  have hblock : ((both.compiled.own.block? "components").map fun merged =>
      (merged.entries.keys, asked merged "tape")) =
      some (["disk", "fan", "tape", "lamp", "port"], ["power", "reel"]) := by
    decide +kernel
  have hsources : both.compiled.own.ledger.components.map (fun group => group.entries.keys) =
      [["disk", "tape", "lamp", "port"]] := by
    decide +kernel
  rw [hmerged] at hblock
  rw [hgroups] at hsources
  obtain ⟨hkeys, hasked⟩ := Prod.mk.inj (Option.some.inj hblock)
  obtain ⟨f, hfactory, hrequires⟩ := exists_factory (hasked ▸ List.cons_ne_nil _ _)
  refine ⟨merged, group, hmerged, hkeys, hgroups, List.singleton_inj.mp hsources, hlists,
    hrequired ((hadded _).mpr ⟨"tape", f, hfactory, ?_, ?_⟩)⟩
  · rw [hrequires, hasked]
    exact List.cons_ne_nil _ _
  · rw [hrequires, hasked]
    rfl

end Machine

end AppAssembly
