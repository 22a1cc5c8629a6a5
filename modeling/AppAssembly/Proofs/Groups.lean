import AppAssembly.Proofs.Creation
import AppAssembly.Proofs.Lineage

/-!
# Groups of components on a line

The components of a type are one group object. What is in it comes from two places that are kept
side by side: every components block leaves a group, without its nulls, and a merged block for later
types to inherit, where the nulls stay. Both follow from searching the declarations of the line, so
a component is found on an instance exactly if the nearest declaration of its key is not a null
(`Line.component_found`).
-/

namespace AppAssembly

open Compile Instance

/-! ## Where else a group could come from -/

/-- What is to be built for a name. -/
def Ledger.wanted (l : Ledger) (name : String) : List Deferred :=
  l.deferred.filter fun item => item.identity = name

/-- A handler that answers to a declaration puts no attribute of a name on the type and wants
nothing built for it. -/
def Handler.LeavesAlone (h : Handler) (d : Declaration) (name : String) : Prop :=
  ∀ l products after, h.handle d l = .ok (products, after) →
    name ∉ Entries.keys products ∧ after.wanted name = l.wanted name

/-- Nothing on a type but its block of a name makes the attribute of that name. -/
structure Compilation.SoleSource (c : Compilation) (name : String) : Prop where
  byHand : name ∉ c.spec.members.keys
  given : c.spec.ledger.wanted name = []
  handled : ∀ b ∈ c.spec.blocks, Text.lowercase b.identity ≠ name → ∀ h,
    c.handlers.find? b.identity = some h → h.LeavesAlone (c.site.declaration b) name

section

variable {l : Ledger} {name : String}

theorem Ledger.wanted_recordCustom {object : CustomObject} (h : object.identity ≠ name)
    (f : Factory) (identity : String) (origin : Origin) :
    ((l.recordFactory f identity origin).recordCustom object).wanted name = l.wanted name := by
  have hne : (Deferred.custom object).identity ≠ name := h
  simp [wanted, deferred, recordFactory_eq, recordCustom, hne]

theorem Ledger.wanted_recordComponents {group : ComponentGroup} (h : group.identity = name)
    (hnone : l.wanted name = []) :
    (l.recordComponents group).wanted name = [.components group] := by
  have hsame : (Deferred.components group).identity = name := h
  unfold wanted deferred at hnone ⊢
  rw [List.filter_append, List.append_eq_nil_iff] at hnone
  simp [recordComponents, hnone, hsame]

/-- With the built-in handlers this comes to the products of the blocks. -/
theorem Compilation.Plain.soleSource {c : Compilation} (hplain : c.Plain)
    (hbyHand : name ∉ c.spec.members.keys)
    (hproducts : ∀ b ∈ c.spec.blocks, Text.lowercase b.identity ≠ name →
      name ∉ Entries.keys (c.site.declaration b).products) : c.SoleSource name where
  byHand := hbyHand
  given := by
    rw [hplain.unwritten]
    rfl
  handled := by
    intro b hb hne h hfind before products after hhandle
    have hmade := hproducts b hb hne
    have hfound : (c.site.declaration b).block.kind.handler? = some h :=
      (isBuiltInFor hplain.builtIn b).symm.trans hfind
    obtain ⟨rfl, hrecords⟩ := Handler.handle_contributes hfound hhandle
    refine ⟨hmade, ?_⟩
    -- what the block wants built has its name
    have hgone : ∀ items ⊆ (c.site.declaration b).items,
        items.filter (fun item => item.identity = name) = [] := by
      intro items hitems
      rw [List.filter_eq_nil_iff]
      intro item hitem hname
      obtain ⟨_, hidentity, _⟩ := Declaration.eq_items (hitems hitem)
      exact hne (hidentity.symm.trans (of_decide_eq_true hname))
    have hgroups := hgone _ (List.subset_append_left _ _)
    have hobjects := hgone _ (List.subset_append_right _ _)
    simp only [Ledger.wanted, Ledger.deferred, hrecords.components, hrecords.custom,
      List.map_append, List.filter_append, hgroups, hobjects, List.append_nil]

end

/-! ## The group of a layer -/

/-- A components block keeps what it inherits exactly if it extends. -/
theorem Block.keepsInherited_components {b : Block} {handlers : HandlerRegistry} {name : String}
    (hname : Text.lowercase b.identity = Text.lowercase name)
    (hcomponents : handlers.find? name = some Handler.components) :
    b.keepsInherited handlers = b.mergesInherited := by
  rw [keepsInherited, HandlerRegistry.find?_congr hname, hcomponents]
  rfl

/-- What later types inherit from a components block is what its handler merges. -/
theorem Compile.Site.mergedEntries_components {site : Site} {handlers : HandlerRegistry}
    {b : Block} {name : String} (hname : Text.lowercase b.identity = Text.lowercase name)
    (hcomponents : handlers.find? name = some Handler.components) (hdistinct : b.Distinct) :
    site.mergedEntries handlers b = Handler.mergedEntries (site.declaration b) := by
  unfold Site.mergedEntries Handler.mergedEntries
  rw [Block.keepsInherited_components hname hcomponents]
  show _ = Entries.overlay (if b.mergesInherited then _ else []) b.entries
  cases b.mergesInherited with
  | true => rfl
  | false => exact (Entries.ofPairs_eq_self hdistinct).symm

/-- The group that a components block describes. -/
def Declaration.group (d : Declaration) : ComponentGroup :=
  ⟨Text.lowercase d.block.identity, d.componentEntries.mapValues .ofValue, d.origin⟩

section

variable {c : Compilation} {b : Block} {l after : Ledger} {products : Products}

theorem HandlerRegistry.Answers.group {d : Declaration} {handlers : HandlerRegistry}
    (h : handlers.Answers d l products after)
    (hcomponents : handlers.find? d.block.identity = some Handler.components) :
    products = [(Text.lowercase d.block.identity, .deferred)] ∧
      (l.wanted (Text.lowercase d.block.identity) = [] →
        after.wanted (Text.lowercase d.block.identity) = [.components d.group]) := by
  cases h with
  | described unknown _ =>
      rw [unknown] at hcomponents
      cases hcomponents
  | handled found handled =>
      obtain rfl := Option.some.inj (hcomponents.symm.trans found)
      unfold Handler.components at handled
      dsimp only at handled
      rw [recordComponentFactories_eq] at handled
      cases handled
      exact ⟨rfl, fun hnone => Ledger.wanted_recordComponents rfl hnone⟩

/-- What answers to a block of another name leaves the name alone. -/
theorem Compilation.SoleSource.leaves_alone {name : String} (hsole : c.SoleSource name)
    (hb : b ∈ c.spec.blocks) (hne : Text.lowercase b.identity ≠ name)
    (h : c.handlers.Answers (c.site.declaration b) l products after) :
    name ∉ Entries.keys products ∧ after.wanted name = l.wanted name := by
  cases h with
  | handled found handled => exact hsole.handled b hb hne _ found _ _ _ handled
  | described unknown described =>
      have hobject : _ ≠ name := (customObject?_eq_some described).1.trans_ne hne
      exact ⟨by simpa [Entries.keys] using hobject.symm, Ledger.wanted_recordCustom hobject _ _ _⟩

theorem Compile.Draft.Takes.wanted {handlers : HandlerRegistry} {d : Declaration}
    {draft next : Draft} (h : draft.Takes handlers d products next) (name : String) :
    ∃ after, handlers.Answers d draft.ledger products after ∧
      next.ledger.wanted name = after.wanted name := by
  obtain ⟨after, hanswers, hledger⟩ := h.exists_answers
  refine ⟨after, hanswers, ?_⟩
  rw [hledger]
  rfl

theorem Compilation.Drafted.wanted {made : List (Declaration × Products)} {draft : Draft}
    (h : c.Drafted made draft) (name : String) :
    c.compiled.own.ledger.wanted name = draft.ledger.wanted name := by
  rw [h.ledger]
  rfl

end

namespace Compilation

variable {c : Compilation} {name : String}

/-- A layer that has no block of a name and nothing to be built under it. -/
structure WithoutGroup (c : Compilation) (name : String) : Prop where
  undeclared : c.declaration? name = none
  member : c.compiled.own.member? name = none
  wanted : c.compiled.own.ledger.wanted name = []

/-- A layer with the group that its block of a name describes. -/
structure WithGroup (c : Compilation) (name : String) (b : Block) : Prop where
  declared : c.declaration? name = some b
  member : c.compiled.own.member? name = some ⟨.deferred, b.origin c.spec.name⟩
  wanted : c.compiled.own.ledger.wanted name = [.components (c.site.declaration b).group]

/-- A layer has a group exactly if it has a components block. -/
theorem group_cases (hlower : Text.lowercase name = name)
    (hcomponents : c.handlers.find? name = some Handler.components) (hsole : c.SoleSource name) :
    c.WithoutGroup name ∨ ∃ b, c.WithGroup name b := by
  obtain ⟨made, draft, h⟩ := c.exists_drafted
  have hstart : (Draft.start c.spec).ledger.wanted name = [] := hsole.given
  have hfind : ∀ b : Block, Text.lowercase b.identity = name →
      c.handlers.find? b.identity = some Handler.components := fun b hname =>
    (HandlerRegistry.find?_congr (hname.trans hlower.symm)).trans hcomponents
  -- a block that leaves the name alone has another one, for a components block takes it
  have hspares : ∀ entry ∈ made, ∀ {before after : Draft},
      before.Takes c.handlers entry.1 entry.2 after → name ∉ Entries.keys entry.2 →
        after.ledger.wanted name = before.ledger.wanted name := by
    rintro ⟨_, products⟩ hentry before after htakes hspared
    obtain ⟨b, hb, rfl⟩ := h.exists_block hentry
    obtain ⟨ledger, hanswers, hafter⟩ := htakes.wanted name
    rw [hafter]
    refine (hsole.leaves_alone hb (fun hname => ?_) hanswers).2
    obtain ⟨hproducts, _⟩ := hanswers.group (hfind b hname)
    refine hspared ?_
    rw [hproducts]
    exact List.mem_singleton.mpr hname.symm
  cases hdeclared : c.declaration? name with
  | none =>
      left
      have hmade : ∀ entry ∈ made, name ∉ Entries.keys entry.2 := by
        rintro ⟨_, products⟩ hentry
        obtain ⟨b, hb, rfl⟩ := h.exists_block hentry
        obtain ⟨before, after, htakes⟩ := h.takes.exists_takes hentry
        obtain ⟨_, hanswers, _⟩ := htakes.ledger
        refine (hsole.leaves_alone hb (fun hname => ?_) hanswers).1
        exact List.find?_eq_none.mp hdeclared b hb (by simp [hname, hlower])
      refine ⟨hdeclared, h.member?_none hsole.byHand hmade, ?_⟩
      rw [h.wanted, h.takes.keeps (fun draft => draft.ledger.wanted name) hspares hmade]
      exact hstart
  | some b =>
      right
      obtain ⟨hb, hname⟩ := declaration?_eq_some hdeclared
      obtain rfl : Text.lowercase b.identity = name := hname.trans hlower
      obtain ⟨products, hentry⟩ := h.exists_products hb
      obtain ⟨_, _, hmade⟩ := h.takes.exists_takes hentry
      obtain ⟨_, hanswers, _⟩ := hmade.ledger
      obtain ⟨rfl, _⟩ := hanswers.group (hfind b rfl)
      have hkey : Text.lowercase b.identity ∈
          Entries.keys [((Text.lowercase b.identity, .deferred) : String × Content)] :=
        List.mem_cons_self
      refine ⟨b, hdeclared, ?_, ?_⟩
      · obtain ⟨_, content, hcontent, hmember⟩ := h.member?_made hentry hkey
        obtain ⟨_, rfl⟩ := Prod.mk.inj (List.mem_singleton.mp hcontent)
        exact hmember
      · obtain ⟨before, after, htakes, hbefore, hafter⟩ := h.takes.settled
          (fun draft => draft.ledger.wanted (Text.lowercase b.identity)) hspares hentry hkey
        obtain ⟨ledger, hanswers, hledger⟩ := htakes.wanted (Text.lowercase b.identity)
        rw [h.wanted, hafter, hledger]
        exact (hanswers.group (hfind b rfl)).2 (hbefore.trans hstart)

/-- The group has the entries that later types inherit, without the nulls. -/
theorem WithGroup.get?_group {b : Block} (h : c.WithGroup name b)
    (hcomponents : c.handlers.find? name = some Handler.components) (hdistinct : b.Distinct)
    {merged : EffectiveBlock} (hmerged : c.compiled.own.block? name = some merged) (key : String) :
    (c.site.declaration b).group.entries.get? key =
      ((merged.entries.get? key).filter fun v => !v.isNull).map .ofValue := by
  obtain ⟨_, hblock, hentries⟩ := block?_of_declaration? h.declared
  obtain rfl := Option.some.inj (hmerged.symm.trans hblock)
  have hname := (declaration?_eq_some h.declared).2
  show (Entries.mapValues _ (c.site.declaration b).componentEntries).get? key = _
  rw [Entries.get?_mapValues, hentries, Site.mergedEntries_components hname hcomponents hdistinct]
  exact congrArg (Option.map _)
    (Entries.get?_filter (c.site.nodup_mergedEntries b) (fun v => !v.isNull) key)

end Compilation

/-! ## The group of a line -/

/-- The component that comes to a block in front of others: the nearest under the key, as far as
blocks extend. It may be a null. -/
def componentAlong (blocks : List Block) (key : String) : Option Value :=
  (reach (fun b => !b.mergesInherited) blocks).findSome? fun b => b.entries.get? key

section

variable {line : List Compilation} {name : String}

/-- What a line has of a name: nothing at all, or the group of the nearest type that declares the
block, which has what searching the declarations finds. -/
theorem Line.group_cases (h : Line line) (hlower : Text.lowercase name = name)
    (hcomponents : ∀ c ∈ line, c.handlers.find? name = some Handler.components)
    (hsole : ∀ c ∈ line, c.SoleSource name)
    (hdistinct : ∀ b ∈ declarations line name, b.Distinct) :
    (declarations line name = [] ∧
      CompiledType.memberAlong (line.map fun c => c.compiled.own) name = none) ∨
    ∃ d ∈ line, ∃ b, d.WithGroup name b ∧
      CompiledType.memberAlong (line.map fun c => c.compiled.own) name =
        some (d.compiled.own, ⟨.deferred, b.origin d.spec.name⟩) ∧
      ∀ key, (d.site.declaration b).group.entries.get? key =
        ((componentAlong (declarations line name) key).filter fun v => !v.isNull).map .ofValue := by
  induction h with
  | empty => exact .inl ⟨rfl, rfl⟩
  | @extend line c h fresh base ih =>
      rw [List.map_cons, CompiledType.memberAlong, List.findSome?_cons]
      obtain ⟨hown, hbehind⟩ := List.forall_mem_cons.mp hcomponents
      obtain ⟨hsoleOwn, hsoleBehind⟩ := List.forall_mem_cons.mp hsole
      rcases Compilation.group_cases hlower hown hsoleOwn with hnone | ⟨b, hgroup⟩
      · rw [declarations_of_not_declared hnone.undeclared] at hdistinct ⊢
        rw [hnone.member]
        rcases ih hbehind hsoleBehind hdistinct with hall | ⟨d, hd, hgroup⟩
        · exact .inl hall
        · exact .inr ⟨d, List.mem_cons_of_mem c hd, hgroup⟩
      · have hline : Line (c :: line) := .extend h fresh base
        have hkeeps : ∀ d ∈ c :: line, ∀ b, d.declaration? name = some b →
            b.keepsInherited d.handlers = b.mergesInherited := fun d hd b hb =>
          Block.keepsInherited_components (Compilation.declaration?_eq_some hb).2 (hcomponents d hd)
        obtain ⟨merged, hmerged, _⟩ := Compilation.block?_of_declaration? hgroup.declared
        refine .inr ⟨c, List.mem_cons_self, b, hgroup, by rw [hgroup.member]; rfl, fun key => ?_⟩
        have hb : b ∈ declarations (c :: line) name :=
          List.mem_filterMap.mpr ⟨c, List.mem_cons_self, hgroup.declared⟩
        rw [hgroup.get?_group hown (hdistinct b hb) hmerged, componentAlong,
          ← hline.nearest_get? hkeeps hdistinct, nearest?_of_declared hmerged]
        rfl

/-- The group of a line is built for its last type. -/
theorem Line.mem_deferred {c d : Compilation} {b : Block} (h : Line (c :: line))
    (hcases : ∀ e ∈ c :: line, e.WithoutGroup name ∨ ∃ b, e.WithGroup name b)
    (hgroup : d.WithGroup name b) (hname : (d.site.declaration b).group.identity = name)
    (hmember : c.compiled.member? name = some (d.compiled.own, ⟨.deferred, b.origin d.spec.name⟩)) :
    .components (d.site.declaration b).group ∈ c.compiled.deferred := by
  have hidentity : (Deferred.components (d.site.declaration b).group).identity = name := hname
  have hby : (d.compiled.own, .components (d.site.declaration b).group) ∈
      c.compiled.deferredBy := by
    refine CompiledType.mem_deferredBy ?_ ?_ (by rw [hidentity]; exact hmember)
    · intro x hahead hsilent other hother hsame
      rw [hidentity] at hsilent hsame
      have hx := hahead.mem List.mem_cons_self
      rw [h.layers] at hx
      obtain ⟨e, he, rfl⟩ := List.mem_map.mp hx
      rcases hcases e he with hnone | ⟨_, hsome⟩
      · have hwanted : other ∈ e.compiled.own.ledger.wanted name :=
          List.mem_filter.mpr ⟨hother, by simp [hsame]⟩
        rw [hnone.wanted] at hwanted
        cases hwanted
      · rw [hsome.member] at hsilent
        cases hsilent
    · rw [hidentity, ← List.head?_filter]
      exact congrArg List.head? hgroup.wanted
  rw [c.compiled.deferred_eq]
  exact List.mem_map_of_mem hby

end

/-! ## What a group is made of -/

/-- What the source of a component comes to: the value itself, or what its factory made when it was
called under the component's name, with no keyword arguments. -/
inductive ComponentSource.Yields (make : Builder) (calls : List (Build × Workshop))
    (name : String) : ComponentSource → Value → Prop where
  | value (v : Value) : Yields make calls name (.value v) v
  | factory {f : Factory} {origin : Origin} {w x : Workshop} {v : Value}
      (called : (⟨name, f, [], origin⟩, w) ∈ calls)
      (made : f.construct [] make (w.note (.build name)) = (.ok v, x)) :
      Yields make calls name (.factory f) v

theorem ComponentSource.Yields.mono {make : Builder} {calls more : List (Build × Workshop)}
    {name : String} {source : ComponentSource} {v : Value} (h : source.Yields make calls name v)
    (hcalls : calls ⊆ more) : source.Yields make more name v := by
  cases h with
  | value => exact .value v
  | factory called made => exact .factory (hcalls called) made

theorem Factory.buildFor_eq_ok {f : Factory} {make : Builder} {name : String} {kwargs : Kwargs}
    {origin : Origin} {w x : Workshop} {v : Value}
    (h : f.buildFor make name kwargs origin w = (.ok v, x)) :
    f.construct kwargs make (w.note (.build name)) = (.ok v, x) := by
  unfold Factory.buildFor at h
  split at h
  · rename_i hmade
    cases h
    exact hmade
  · cases h

/-- A group object has an attribute for every entry, and no others. -/
theorem ComponentGroup.get?_attrs (g : ComponentGroup) {make : Builder}
    {entries : List (String × ComponentSource)} {w x : Workshop} {attrs : List (String × Value)}
    (h : Act.mapList entries (g.buildEntry make) w = (.ok attrs, x)) (key : String) :
    (Entries.get? entries key = none → Entries.get? attrs key = none) ∧
    ∀ source, Entries.get? entries key = some source → ∃ v, Entries.get? attrs key = some v ∧
      source.Yields make (Act.course (Build.run make) (entries.filterMap g.build?) w)
        (g.identity ++ "." ++ key) v := by
  induction entries generalizing w attrs with
  | nil =>
      cases h
      exact ⟨fun _ => rfl, fun _ hsource => by cases hsource⟩
  | cons entry entries ih =>
      obtain ⟨attr, y, rest, hentry, hrest, rfl⟩ := Act.mapList_cons_ok h
      obtain ⟨name, source⟩ := entry
      cases source with
      | value v =>
          cases hentry
          rw [List.filterMap_cons_none rfl]
          simp only [Entries.get?_cons]
          by_cases hname : name = key
          · rw [if_pos hname, if_pos hname]
            refine ⟨fun hnone => (by cases hnone), fun source hsource => ?_⟩
            cases hsource
            exact ⟨v, rfl, .value v⟩
          · rw [if_neg hname, if_neg hname]
            exact ih hrest
      | factory f =>
          obtain ⟨v, _, hcall, hentry⟩ := Act.bind_ok_iff.mp hentry
          cases hentry
          have hbuild : g.build? (name, .factory f) =
              some ⟨g.identity ++ "." ++ name, f, [], g.origin⟩ := rfl
          rw [List.filterMap_cons_some hbuild, Act.course_cons_ok (Build.run_ok hcall)]
          simp only [Entries.get?_cons]
          by_cases hname : name = key
          · rw [if_pos hname, if_pos hname]
            refine ⟨fun hnone => (by cases hnone), fun source hsource => ?_⟩
            cases hsource
            subst hname
            exact ⟨v, rfl, .factory List.mem_cons_self (Factory.buildFor_eq_ok hcall)⟩
          · rw [if_neg hname, if_neg hname]
            obtain ⟨hnone, hsome⟩ := ih hrest
            refine ⟨hnone, fun source hsource => ?_⟩
            obtain ⟨u, hu, hyields⟩ := hsome source hsource
            exact ⟨u, hu, hyields.mono (List.subset_cons_self _ _)⟩

/-- What is found in a group object is what its entries yield. -/
theorem ComponentGroup.lookup_materialized {g : ComponentGroup} {make : Builder} {w x : Workshop}
    {v : Value} (h : g.materialize make w = (.ok v, x)) (key : String) :
    (g.entries.get? key = none → v.lookup key = none) ∧
    ∀ source, g.entries.get? key = some source → ∃ u, v.lookup key = some u ∧
      source.Yields make (Act.course (Build.run make) (Deferred.components g).builds w)
        (g.identity ++ "." ++ key) u := by
  obtain ⟨attrs, y, hentries, h⟩ := Act.bind_ok_iff.mp h
  obtain ⟨tag, _, _, h⟩ := Act.bind_ok_iff.mp h
  cases h
  -- the object has no methods, so its attributes are all there is
  have hlookup : Value.lookup (.object ⟨tag, g.identity, attrs, []⟩) key =
      Entries.get? attrs key := by
    show Obj.lookup _ _ = _
    unfold Obj.lookup
    cases Entries.get? attrs key <;> rfl
  rw [hlookup]
  exact g.get?_attrs hentries key

/-! ## Components on an instance -/

/-- The calls of factories that creating things makes, each with the workshop that it finds. -/
def Instance.buildCourse (make : Builder) (i : Instance) : List (Build × Workshop) :=
  (i.creations make).flatMap fun m => Act.course (Build.run make) m.1.builds m.2.workshop

namespace Instance

variable {make : Builder} {i : Instance} {name key : String} {group : ComponentGroup}

/-- What a group that was created has under a key. -/
theorem get_component (hok : (createThings make i).1 = .ok ())
    (hdeferred : .components group ∈ i.compiled.deferred) (hname : isPlain group.identity = true)
    (hkey : isPlain key = true) :
    (∀ v, (get (group.identity ++ "." ++ key) (createThings make i).2).1 = .ok v →
      ∃ source, group.entries.get? key = some source ∧
        source.Yields make (i.buildCourse make) (group.identity ++ "." ++ key) v) ∧
    ∀ source, group.entries.get? key = some source →
      ∃ v, (get (group.identity ++ "." ++ key) (createThings make i).2).1 = .ok v := by
  obtain ⟨j, made, w, hbegun, hmade, hplaced⟩ := placed_of_mem_deferred hok hdeferred
  have hget := get_pair hname hkey (lookup_placed hplaced)
  obtain ⟨hmissing, hyields⟩ := ComponentGroup.lookup_materialized hmade key
  have hcalls : Act.course (Build.run make) (Deferred.components group).builds j.workshop ⊆
      i.buildCourse make := fun call hcall => List.mem_flatMap.mpr ⟨_, hbegun, hcall⟩
  constructor
  · intro v hv
    have hlookup : made.lookup key = some v := (hget v).mp hv
    cases hsource : group.entries.get? key with
    | none =>
        rw [hmissing hsource] at hlookup
        cases hlookup
    | some source =>
        obtain ⟨v', hv', hyield⟩ := hyields source hsource
        obtain rfl := Option.some.inj (hlookup.symm.trans hv')
        exact ⟨source, rfl, hyield.mono hcalls⟩
  · intro source hsource
    obtain ⟨v, hv, _⟩ := hyields source hsource
    exact ⟨v, (hget v).mpr hv⟩

/-- Under a name that the type has no member of, creating things puts nothing. -/
theorem get_absent (make : Builder) (hmember : i.compiled.member? name = none)
    (hattrs : i.attrs.get? name = none) (hname : isPlain name = true) (hkey : isPlain key = true)
    (v : Value) :
    (get (name ++ "." ++ key) (createThings make i).2).1 ≠ .ok v := by
  have hplaces := createThings_places make i
  have hempty : (createThings make i).2.attrs.get? name = none :=
    (hplaces.attrs name (by simp [awaits, hmember])).trans hattrs
  have hlookup : lookup name (createThings make i).2 = (.ok none, (createThings make i).2) := by
    rw [lookup]
    simp only [hempty, hplaces.compiled, hmember]
  intro hv
  cases (get_pair hname hkey hlookup v).mp hv

end Instance

/-- The entry of a group under a key is what is declared for it, unless that is a null. -/
theorem get?_group_eq_some_iff {declared : Option Value} {source : ComponentSource} :
    (declared.filter fun v => !v.isNull).map ComponentSource.ofValue = some source ↔
      ∃ u, declared = some u ∧ u ≠ .null ∧ ComponentSource.ofValue u = source := by
  have hnull : ∀ v : Value, v.isNull = false ↔ v ≠ .null := by
    intro v
    cases v <;> simp [Value.isNull]
  simp [Option.filter_eq_some_iff, hnull, and_assoc]

/-- A component of a group that was created is found exactly if it was declared as something else
than a null, and what is found is what the declaration yields. -/
theorem component_iff {make : Builder} {i : Instance} {group : ComponentGroup} {key : String}
    {declared : Option Value} (hok : (createThings make i).1 = .ok ())
    (hdeferred : .components group ∈ i.compiled.deferred) (hname : isPlain group.identity = true)
    (hkey : isPlain key = true)
    (hentry : group.entries.get? key = (declared.filter fun v => !v.isNull).map .ofValue) :
    ((∃ v, (get (group.identity ++ "." ++ key) (createThings make i).2).1 = .ok v) ↔
      ∃ u, declared = some u ∧ u ≠ .null) ∧
    ∀ v, (get (group.identity ++ "." ++ key) (createThings make i).2).1 = .ok v →
      ∃ u, declared = some u ∧ u ≠ .null ∧
        (ComponentSource.ofValue u).Yields make (i.buildCourse make)
          (group.identity ++ "." ++ key) v := by
  obtain ⟨hfound, hgets⟩ := get_component hok hdeferred hname hkey
  have hvalue : ∀ v, (get (group.identity ++ "." ++ key) (createThings make i).2).1 = .ok v →
      ∃ u, declared = some u ∧ u ≠ .null ∧
        (ComponentSource.ofValue u).Yields make (i.buildCourse make)
          (group.identity ++ "." ++ key) v := by
    intro v hv
    obtain ⟨source, hsource, hyields⟩ := hfound v hv
    obtain ⟨u, hu, hne, rfl⟩ := get?_group_eq_some_iff.mp (hentry.symm.trans hsource)
    exact ⟨u, hu, hne, hyields⟩
  refine ⟨⟨?_, ?_⟩, hvalue⟩
  · rintro ⟨v, hv⟩
    obtain ⟨u, hu, hne, _⟩ := hvalue v hv
    exact ⟨u, hu, hne⟩
  · rintro ⟨u, hu, hne⟩
    exact hgets (.ofValue u) (hentry.trans (get?_group_eq_some_iff.mpr ⟨u, hu, hne, rfl⟩))

/-- Components on a line. On a fresh instance whose things were created, a component is found
exactly if the nearest declaration of its key, as far as components blocks extend, is not a null.
What is found is the declared value, or what the declared factory made, whatever factories make,
without keyword arguments. -/
theorem Line.component_found {c : Compilation} {line : List Compilation} (h : Line (c :: line))
    (hcomponents : ∀ d ∈ c :: line, d.handlers.find? "components" = some Handler.components)
    (hsole : ∀ d ∈ c :: line, d.SoleSource "components")
    (hdistinct : ∀ b ∈ declarations (c :: line) "components", b.Distinct)
    {make : Builder} {i : Instance} {runner : String} {workshop : Workshop}
    (hi : i = .ofType c.compiled runner workshop) (hok : (createThings make i).1 = .ok ())
    {key : String} (hkey : isPlain key = true) :
    ((∃ v, (get ("components." ++ key) (createThings make i).2).1 = .ok v) ↔
      ∃ u, componentAlong (declarations (c :: line) "components") key = some u ∧ u ≠ .null) ∧
    ∀ v, (get ("components." ++ key) (createThings make i).2).1 = .ok v →
      ∃ u, componentAlong (declarations (c :: line) "components") key = some u ∧ u ≠ .null ∧
        (ComponentSource.ofValue u).Yields make (i.buildCourse make) ("components." ++ key) v := by
  have hlower : Text.lowercase "components" = "components" := by decide +kernel
  have hplain : isPlain "components" = true := by decide +kernel
  have hcompiled : i.compiled = c.compiled := by
    rw [hi]
    rfl
  have hmember : i.compiled.member? "components" =
      CompiledType.memberAlong ((c :: line).map fun d => d.compiled.own) "components" := by
    rw [← h.layers, hcompiled]
    rfl
  rcases h.group_cases hlower hcomponents hsole hdistinct with
    ⟨hundeclared, hnobody⟩ | ⟨d, hd, b, hgroup, howner, hentries⟩
  · -- nobody has a components block, so there is nothing under the name
    have hattrs : i.attrs.get? "components" = none := by
      rw [hi]
      rfl
    have hget := get_absent make (hmember.trans hnobody) hattrs hplain hkey
    rw [hundeclared]
    refine ⟨⟨?_, ?_⟩, fun v hv => absurd hv (hget v)⟩
    · rintro ⟨v, hv⟩
      exact absurd hv (hget v)
    · rintro ⟨u, hu, _⟩
      cases hu
  · have hname : (d.site.declaration b).group.identity = "components" :=
      (Compilation.declaration?_eq_some hgroup.declared).2.trans hlower
    rw [← hmember, hcompiled] at howner
    have hdeferred := h.mem_deferred
      (fun e he => Compilation.group_cases hlower (hcomponents e he) (hsole e he)) hgroup hname
      howner
    rw [← hcompiled] at hdeferred
    have hfound := component_iff hok hdeferred (hname ▸ hplain) hkey (hentries key)
    rw [hname] at hfound
    exact hfound

/-! ## Components that are left

The middle drops what the root declares, and the leaf drops one component of the middle. -/

namespace Assembled

def part : Factory :=
  ⟨.given 0, "Part", [], [], none, .constant (.int 3)⟩

def first : Block :=
  { identity := "components", entries := [("disk", .int 1), ("tape", .int 2)] }

def dropping : Block :=
  { identity := "Components", extend := some false,
    entries := [("disk", .factory part), ("port", .int 4)] }

def last : Block :=
  { identity := "COMPONENTS", entries := [("port", .null), ("name", .str "main")] }

def cache : Block :=
  { identity := "Cache", mainType := some part }

def root : Compilation :=
  .ofOk .builtIn 0 { name := "Root", blocks := [first] } [] (by decide +kernel)

def middle : Compilation :=
  .ofOk .builtIn 1 { name := "Middle", blocks := [dropping, cache] } (tip [root])
    (by decide +kernel)

def leaf : Compilation :=
  .ofOk .builtIn 2 { name := "Leaf", blocks := [last] } (tip [middle, root]) (by decide +kernel)

theorem line : Line [leaf, middle, root] := by
  refine .extend (.extend (.extend .empty ?_ rfl) ?_ rfl) ?_ rfl
  · simp
  · simp [root, middle, Compilation.ofOk]
  · simp [root, middle, leaf, Compilation.ofOk]

theorem soleSource : ∀ c ∈ [leaf, middle, root], c.SoleSource "components" := by
  have hfirst : Text.lowercase first.identity = "components" := by decide +kernel
  have hdropping : Text.lowercase dropping.identity = "components" := by decide +kernel
  have hlast : Text.lowercase last.identity = "components" := by decide +kernel
  simp only [List.mem_cons, List.not_mem_nil, or_false, forall_eq_or_imp, forall_eq]
  refine ⟨Compilation.Plain.soleSource ⟨rfl, rfl⟩ (by decide +kernel) ?_,
    Compilation.Plain.soleSource ⟨rfl, rfl⟩ (by decide +kernel) ?_,
    Compilation.Plain.soleSource ⟨rfl, rfl⟩ (by decide +kernel) ?_⟩
  · intro b hb hne
    obtain rfl := List.mem_singleton.mp hb
    exact absurd hlast hne
  · intro b hb hne
    rcases List.mem_cons.mp hb with rfl | hb
    · exact absurd hdropping hne
    · obtain rfl := List.mem_singleton.mp hb
      decide +kernel
  · intro b hb hne
    obtain rfl := List.mem_singleton.mp hb
    exact absurd hfirst hne

def start : Instance :=
  Instance.ofType leaf.compiled

theorem declarations_line :
    declarations [leaf, middle, root] "components" = [last, dropping, first] := by
  rfl

theorem component_found_start :
    (get "components.disk" (createThings Recipe.make start).2).1 = .ok (.int 3) ∧
    (get "components.name" (createThings Recipe.make start).2).1 = .ok (.str "main") ∧
    (∀ v, (get "components.port" (createThings Recipe.make start).2).1 ≠ .ok v) ∧
    ∀ v, (get "components.tape" (createThings Recipe.make start).2).1 ≠ .ok v := by
  have hok : (createThings Recipe.make start).1 = .ok () := eq_ok_okValue (by decide +kernel)
  have hcomponents : ∀ c ∈ [leaf, middle, root],
      c.handlers.find? "components" = some Handler.components := by
    simp only [List.mem_cons, List.not_mem_nil, or_false, forall_eq_or_imp, forall_eq]
    have hbuiltIn : HandlerRegistry.builtIn.find? "components" = some Handler.components := by
      rw [HandlerRegistry.find?_builtIn]
      rfl
    exact ⟨hbuiltIn, hbuiltIn, hbuiltIn⟩
  have hdistinct : ∀ b ∈ [last, dropping, first], b.Distinct := by
    simp only [List.mem_cons, List.not_mem_nil, or_false, forall_eq_or_imp, forall_eq]
    refine ⟨?_, ?_, ?_⟩ <;> (unfold Block.Distinct; decide)
  have hfound : ∀ key, isPlain key = true →
      ((∃ v, (get ("components." ++ key) (createThings Recipe.make start).2).1 = .ok v) ↔
        ∃ u, componentAlong [last, dropping, first] key = some u ∧ u ≠ .null) ∧
      ∀ v, (get ("components." ++ key) (createThings Recipe.make start).2).1 = .ok v →
        ∃ u, componentAlong [last, dropping, first] key = some u ∧ u ≠ .null ∧
          (ComponentSource.ofValue u).Yields Recipe.make (start.buildCourse Recipe.make)
            ("components." ++ key) v := by
    rw [← declarations_line] at hdistinct ⊢
    exact fun key hkey => line.component_found hcomponents soleSource hdistinct rfl hok hkey
  have hgets : ∀ key u, isPlain key = true →
      componentAlong [last, dropping, first] key = some u → u ≠ .null →
      ∃ v, (get ("components." ++ key) (createThings Recipe.make start).2).1 = .ok v ∧
        (ComponentSource.ofValue u).Yields Recipe.make (start.buildCourse Recipe.make)
            ("components." ++ key) v := by
    intro key u hkey hu hne
    obtain ⟨v, hv⟩ := (hfound key hkey).1.mpr ⟨u, hu, hne⟩
    obtain ⟨u', hu', _, hyields⟩ := (hfound key hkey).2 v hv
    rw [hu] at hu'
    cases hu'
    exact ⟨v, hv, hyields⟩
  refine ⟨?_, ?_, ?_, ?_⟩
  · obtain ⟨v, hv, hyields⟩ := hgets "disk" (.factory part) (by decide) rfl (by simp)
    cases hyields with
    | factory _ made =>
        cases made
        exact hv
  · obtain ⟨v, hv, hyields⟩ := hgets "name" (.str "main") (by decide) rfl (by simp)
    cases hyields
    exact hv
  · intro v hv
    obtain ⟨u, hu, hne⟩ := (hfound "port" (by decide)).1.mp ⟨v, hv⟩
    cases hu
    exact hne rfl
  · intro v hv
    obtain ⟨u, hu, hne⟩ := (hfound "tape" (by decide)).1.mp ⟨v, hv⟩
    cases hu

end Assembled

end AppAssembly
