import AppAssembly.Proofs.Backing
import AppAssembly.Proofs.Lineage

/-!
# Custom blocks on a line

A block without a handler describes an object: what builds it is the main type, and the entries are
the keyword arguments. Both may be inherited, and they are cut off differently: a block that does
not extend leaves behind everything, one that nulls out what it inherits only the entries. On a line
of types the main type is the nearest one, and every argument is the nearest one under its key, as
far as the two searches go. A type whose search for a main type finds none is refused, and it is
refused for nothing else if it would compile with one (`Line.custom_object`).
-/

namespace AppAssembly

open Compile

/-! ## Describing an object -/

section

variable {draft next : Draft} {d : Declaration} {object : CustomObject}

theorem customObject?_factory (d : Declaration) :
    (customObject? d).map CustomObject.factory =
      d.block.mainType.or (if d.block.mergesInherited then d.inherited.mainType else none) := by
  unfold customObject?
  rw [Option.map_map]
  exact Option.map_id_apply

theorem addCustom_eq_ok (h : draft.addCustom d = .ok next) :
    ∃ object, customObject? d = some object ∧
      draft.claims.ensureFree d.origin [object.identity] = .ok () ∧
      next.claims = draft.claims.generated [object.identity] d.origin ∧
      next.ledger.custom = draft.ledger.custom ++ [object] := by
  unfold Draft.addCustom at h
  cases hobject : customObject? d with
  | none =>
      rw [hobject] at h
      cases h
  | some object =>
      rw [hobject] at h
      obtain ⟨placed, hplaced, h⟩ := bind_eq_ok.mp h
      unfold Draft.place at hplaced
      obtain ⟨_, hfree, hplaced⟩ := bind_eq_ok.mp hplaced
      cases hplaced
      cases h
      refine ⟨object, rfl, hfree, rfl, ?_⟩
      simp [Ledger.recordCustom, Ledger.recordAdded, recordMarkers, Ledger.recordFactory_eq]

theorem addCustom_of_described (hobject : customObject? d = some object)
    (hfree : draft.claims.ensureFree d.origin [object.identity] = .ok ()) :
    ∃ next, draft.addCustom d = .ok next := by
  unfold Draft.addCustom Draft.place
  simp only [hobject, List.map_cons, List.map_nil, hfree]
  exact ⟨_, rfl⟩

theorem addCustom_of_not_described (h : customObject? d = none) :
    draft.addCustom d = .error (.developer (.missingMainType d.block.identity d.origin)) := by
  unfold Draft.addCustom
  rw [h]

end

/-! ## All custom blocks of a type -/

section

variable {site : Site} {draft next : Draft} {bs : List Block}

/-- The objects of the blocks are recorded in the order of the blocks. -/
theorem addAllCustom_custom (h : draft.addAllCustom site bs = .ok next) :
    (∀ b ∈ bs, (customObject? (site.declaration b)).isSome) ∧
      next.ledger.custom =
        draft.ledger.custom ++ bs.filterMap fun b => customObject? (site.declaration b) := by
  induction bs generalizing draft with
  | nil =>
      cases h
      simp
  | cons b rest ih =>
      unfold Draft.addAllCustom at h
      obtain ⟨middle, hadd, h⟩ := bind_eq_ok.mp h
      obtain ⟨object, hobject, _, _, hcustom⟩ := addCustom_eq_ok hadd
      obtain ⟨hdescribed, hrest⟩ := ih h
      refine ⟨List.forall_mem_cons.mpr ⟨by simp [hobject], hdescribed⟩, ?_⟩
      rw [hrest, hcustom, List.append_assoc, List.filterMap_cons, hobject]
      rfl

/-- Later types inherit the block as the object was described. -/
theorem addAllCustom_block (h : draft.addAllCustom site bs = .ok next)
    (hnodup : (bs.map fun b => Text.lowercase b.identity).Nodup) {b : Block} (hb : b ∈ bs) :
    ∃ object, customObject? (site.declaration b) = some object ∧
      next.blocks.get? (Text.lowercase b.identity) =
        some ⟨object.block, object.kwargs, some object.factory, b.origin site.typeName⟩ := by
  induction bs generalizing draft with
  | nil => cases hb
  | cons c rest ih =>
      unfold Draft.addAllCustom at h
      obtain ⟨middle, hadd, hrest⟩ := bind_eq_ok.mp h
      rw [List.map_cons, List.nodup_cons] at hnodup
      rcases List.mem_cons.mp hb with rfl | hb
      · obtain ⟨object, hobject, hblocks⟩ := addCustom_blocks hadd
        have hidentity : object.identity = Text.lowercase b.identity :=
          (customObject?_eq_some hobject).1
        refine ⟨object, hobject, ?_⟩
        -- no other block has the name
        have hmerges : Merges .empty site middle.blocks rest next.blocks :=
          addAllCustom_merges (fun _ _ => rfl) hrest
        rw [hmerges.get?_of_ne, hblocks, hidentity, Entries.get?_insert_self]
        · rfl
        · intro c hc hname
          exact hnodup.1 (List.mem_map.mpr ⟨c, hc, hname⟩)
      · exact ih hrest hnodup.2 hb

end

theorem nodup_customBlocks {handlers : HandlerRegistry} {blocks : List Block}
    (h : (blocks.map fun b => Text.lowercase b.identity).Nodup) :
    ((customBlocks handlers blocks).map fun b => Text.lowercase b.identity).Nodup := by
  have hperm := (dispatched_perm handlers blocks).map fun b => Text.lowercase b.identity
  rw [← hperm.nodup_iff, List.map_append] at h
  exact (List.nodup_append.mp h).2.1

/-- A custom block of a type: the object it describes, and where that was left. -/
theorem Compilation.exists_object {c : Compilation} {name : String} {b : Block}
    (hunknown : c.handlers.find? name = none) (hb : c.declaration? name = some b) :
    ∃ object, customObject? (c.site.declaration b) = some object ∧
      c.compiled.own.block? name =
        some ⟨object.block, object.kwargs, some object.factory, b.origin c.spec.name⟩ ∧
      object ∈ c.compiled.own.ledger.custom := by
  obtain ⟨hmem, hname⟩ := declaration?_eq_some hb
  obtain ⟨_, _, known, draft, _, hcustom, hown⟩ := compile_eq_ok c.result
  have hdispatched : b ∈ customBlocks c.handlers c.spec.blocks :=
    mem_customBlocks.mpr ⟨hmem, (HandlerRegistry.find?_congr hname).trans hunknown⟩
  obtain ⟨object, hobject, hblock⟩ :=
    addAllCustom_block hcustom (nodup_customBlocks c.blocks_nodup) hdispatched
  refine ⟨object, hobject, ?_, ?_⟩
  · rw [Layer.block?, ← hname, hown]
    exact hblock
  · have hrecorded : c.compiled.own.ledger.custom = draft.ledger.custom := by
      rw [hown, addByHand_ledger]
      rfl
    rw [hrecorded, (addAllCustom_custom hcustom).2]
    exact List.mem_append_right _ (List.mem_filterMap.mpr ⟨b, hdispatched, hobject⟩)

/-! ## The searches -/

/-- The main type that comes to a block in front of others: the nearest, as far as blocks extend. -/
def mainTypeAlong (blocks : List Block) : Option Factory :=
  (reach (fun b => !b.mergesInherited) blocks).findSome? Block.mainType

/-- The argument that comes to a block in front of others: the nearest under the key, as far as
blocks extend and don't null out. -/
def argumentAlong (blocks : List Block) (key : String) : Option Value :=
  (reach (fun b => !b.mergesInherited || b.nullifiesInherited) blocks).findSome? fun b =>
    b.entries.get? key

section

variable {line : List Compilation} {name : String}

/-- The factory of an object that continues a line, in terms of the nearest merged block. -/
theorem Line.factory_nearest (h : Line line) (typeName : String) (layer : Nat) {b : Block}
    (hname : Text.lowercase b.identity = Text.lowercase name) :
    (customObject? ((siteOn line typeName layer).declaration b)).map CustomObject.factory =
      b.mainType.or (if b.mergesInherited then (nearest? line name).bind fun merged =>
        merged.mainType else none) := by
  rw [customObject?_factory, h.inherited_mainType hname]
  rfl

/-- The nearest merged block has the main type that searching the declarations finds. -/
theorem Line.nearest_mainType (h : Line line)
    (hunknown : ∀ c ∈ line, c.handlers.find? name = none) :
    ((nearest? line name).bind fun merged => merged.mainType) =
      mainTypeAlong (declarations line name) := by
  induction h with
  | empty => rfl
  | @extend line c h fresh base ih =>
      have hrest := ih fun d hd => hunknown d (List.mem_cons_of_mem c hd)
      cases hdeclared : c.declaration? name with
      | none =>
          rw [declarations_of_not_declared hdeclared, nearest?_of_not_declared hdeclared, hrest]
      | some b =>
          obtain ⟨_, hname⟩ := Compilation.declaration?_eq_some hdeclared
          obtain ⟨object, hobject, hblock, _⟩ :=
            Compilation.exists_object (hunknown c List.mem_cons_self) hdeclared
          rw [(Line.extend h fresh base).site] at hobject
          have hfactory := h.factory_nearest c.spec.name c.layer hname
          rw [hobject, hrest] at hfactory
          rw [declarations_of_declared hdeclared, nearest?_of_declared hblock, mainTypeAlong,
            findSome?_reach_cons]
          refine hfactory.trans ?_
          cases b.mergesInherited <;> rfl

/-- The factory of an object that continues a line is the nearest main type. -/
theorem Line.factory_eq (h : Line line) (hunknown : ∀ c ∈ line, c.handlers.find? name = none)
    (typeName : String) (layer : Nat) {b : Block}
    (hname : Text.lowercase b.identity = Text.lowercase name) :
    (customObject? ((siteOn line typeName layer).declaration b)).map CustomObject.factory =
      mainTypeAlong (b :: declarations line name) := by
  rw [h.factory_nearest typeName layer hname, h.nearest_mainType hunknown, mainTypeAlong,
    mainTypeAlong, findSome?_reach_cons]
  cases b.mergesInherited <;> rfl

/-- And its arguments are the nearest ones. -/
theorem Line.kwargs_get? (h : Line line) (hunknown : ∀ c ∈ line, c.handlers.find? name = none)
    (hdistinct : ∀ b ∈ declarations line name, b.Distinct) {typeName : String} {layer : Nat}
    {b : Block} (hname : Text.lowercase b.identity = Text.lowercase name) (hb : b.Distinct)
    {object : CustomObject}
    (hobject : customObject? ((siteOn line typeName layer).declaration b) = some object)
    (key : String) :
    object.kwargs.get? key = argumentAlong (b :: declarations line name) key := by
  have hkeeps : ∀ c ∈ line, ∀ d, c.declaration? name = some d →
      d.keepsInherited c.handlers = (d.mergesInherited && !d.nullifiesInherited) := by
    intro c hc d hd
    have hsame := (Compilation.declaration?_eq_some hd).2
    rw [Block.keepsInherited, HandlerRegistry.find?_congr hsame, hunknown c hc]
  have hcuts : (fun d : Block => !(d.mergesInherited && !d.nullifiesInherited)) =
      fun d => !d.mergesInherited || d.nullifiesInherited := by
    funext d
    simp
  have hnearest := h.nearest_get? hkeeps hdistinct key
  rw [hcuts] at hnearest
  rw [(customObject?_eq_some hobject).2, argumentAlong, findSome?_reach_cons, ← hnearest,
    ← h.inherited_get? typeName layer hname]
  show Entries.get? (if b.mergesInherited && !b.nullifiesInherited then
    Entries.overlay _ b.entries else b.entries) key = _
  cases hkept : b.mergesInherited && !b.nullifiesInherited with
  | true =>
      have hcut : (!b.mergesInherited || b.nullifiesInherited) = false := by
        rw [← Bool.not_eq_true', Bool.not_or, Bool.not_not, hkept]
      rw [if_pos rfl, Entries.get?_overlay, Entries.get?_ofPairs hb, hcut]
      rfl
  | false =>
      have hcut : (!b.mergesInherited || b.nullifiesInherited) = true := by
        rw [← Bool.not_eq_false', Bool.not_or, Bool.not_not, hkept]
      simp [hcut]

theorem Compile.Site.nodup_kwargs {site : Site} {b : Block} (hb : b.Distinct)
    {object : CustomObject} (h : customObject? (site.declaration b) = some object) :
    object.kwargs.keys.Nodup := by
  rw [(customObject?_eq_some h).2]
  split
  · exact Entries.nodup_keys_overlay (inheritedBlock_nodup ..) _
  · exact hb

end

/-! ## Compiling with a main type given -/

/-- The block with a main type of its own, if it has the name. -/
def Block.giving (name : String) (f : Factory) (b : Block) : Block :=
  if Text.lowercase b.identity = Text.lowercase name then { b with mainType := some f } else b

/-- The specification in which the block of a name has a main type of its own. -/
def TypeSpec.giving (s : TypeSpec) (name : String) (f : Factory) : TypeSpec :=
  { s with blocks := s.blocks.map (Block.giving name f) }

section

variable {name : String} {f : Factory} {b : Block}

@[simp] theorem Block.giving_identity : (b.giving name f).identity = b.identity := by
  unfold giving
  split <;> rfl

@[simp] theorem Block.giving_invalid : (b.giving name f).invalid = b.invalid := by
  unfold giving
  split <;> rfl

@[simp] theorem Block.giving_origin (typeName : String) :
    (b.giving name f).origin typeName = b.origin typeName := by
  unfold giving
  split <;> rfl

theorem Block.giving_of_ne (h : Text.lowercase b.identity ≠ Text.lowercase name) :
    b.giving name f = b :=
  if_neg h

theorem checkBlocks_giving (typeName : String) (seen : Entries String String) (bs : List Block) :
    checkBlocks typeName seen (bs.map (Block.giving name f)) = checkBlocks typeName seen bs := by
  induction bs generalizing seen with
  | nil => rfl
  | cons b rest ih =>
      simp only [List.map_cons, checkBlocks, Block.giving_identity, Block.giving_invalid,
        Block.giving_origin, ih]

variable {handlers : HandlerRegistry} (hunknown : handlers.find? name = none)
include hunknown

/-- Blocks with a handler stay as they are. -/
theorem knownBlocks_giving (bs : List Block) :
    knownBlocks handlers (bs.map (Block.giving name f)) = knownBlocks handlers bs := by
  have hfilter : (bs.map (Block.giving name f)).filter (fun b => handlers.contains b.identity) =
      bs.filter fun b => handlers.contains b.identity := by
    rw [List.filter_map]
    simp only [Function.comp_def, Block.giving_identity]
    refine (List.map_congr_left fun b hb => ?_).trans (List.map_id _)
    refine Block.giving_of_ne fun hname => ?_
    have hfind := (List.mem_filter.mp hb).2
    rw [HandlerRegistry.contains, HandlerRegistry.find?_congr hname, hunknown] at hfind
    cases hfind
  unfold knownBlocks
  rw [hfilter]

omit hunknown in
theorem customBlocks_giving (bs : List Block) :
    customBlocks handlers (bs.map (Block.giving name f)) =
      (customBlocks handlers bs).map (Block.giving name f) := by
  unfold customBlocks
  rw [List.filter_map]
  simp only [Function.comp_def, Block.giving_identity]
  refine (List.map_mergeSort fun a _ b _ => ?_).symm
  rw [Block.giving_identity, Block.giving_identity]

end

section

variable {site : Site} {name : String} {f : Factory} {draft given middle last : Draft}
  {bs : List Block} {b : Block}

/-- Whether a name is free does not depend on what builds the object. -/
theorem addCustom_like_given (hclaims : draft.claims = given.claims)
    (hgiven : given.addCustom (site.declaration (b.giving name f)) = .ok middle)
    {object : CustomObject} (hobject : customObject? (site.declaration b) = some object) :
    ∃ next, draft.addCustom (site.declaration b) = .ok next ∧ next.claims = middle.claims := by
  obtain ⟨other, hother, hfree, hafter, _⟩ := addCustom_eq_ok hgiven
  have hidentity : other.identity = object.identity := by
    rw [(customObject?_eq_some hother).1, (customObject?_eq_some hobject).1]
    exact congrArg Text.lowercase Block.giving_identity
  have horigin : (site.declaration (b.giving name f)).origin = (site.declaration b).origin :=
    Block.giving_origin site.typeName
  rw [hidentity, horigin, ← hclaims] at hfree hafter
  obtain ⟨next, hnext⟩ := addCustom_of_described hobject hfree
  obtain ⟨same, hsame, _, hclaimed, _⟩ := addCustom_eq_ok hnext
  rw [hobject] at hsame
  cases hsame
  exact ⟨next, hnext, hclaimed.trans hafter.symm⟩

/-- Blocks that all describe objects are compiled, if they are with a main type given. -/
theorem addAllCustom_of_described (hclaims : draft.claims = given.claims)
    (hgiven : given.addAllCustom site (bs.map (Block.giving name f)) = .ok last)
    (hdescribed : ∀ b ∈ bs, (customObject? (site.declaration b)).isSome) :
    ∃ next, draft.addAllCustom site bs = .ok next := by
  induction bs generalizing draft given with
  | nil => exact ⟨draft, rfl⟩
  | cons b rest ih =>
      rw [List.map_cons, Draft.addAllCustom] at hgiven
      obtain ⟨middle, hadd, hrest⟩ := bind_eq_ok.mp hgiven
      obtain ⟨hfirst, hdescribed⟩ := List.forall_mem_cons.mp hdescribed
      obtain ⟨object, hobject⟩ := Option.isSome_iff_exists.mp hfirst
      obtain ⟨next, hnext, hsame⟩ := addCustom_like_given hclaims hadd hobject
      obtain ⟨after, hafter⟩ := ih hsame hrest hdescribed
      exact ⟨after, bind_eq_ok.mpr ⟨next, hnext, hafter⟩⟩

/-- The one block that describes none is what the blocks are refused for. -/
theorem addAllCustom_of_not_described (hclaims : draft.claims = given.claims)
    (hgiven : given.addAllCustom site (bs.map (Block.giving name f)) = .ok last) (hb : b ∈ bs)
    (hnone : customObject? (site.declaration b) = none)
    (hothers : ∀ other ∈ bs, other ≠ b → (customObject? (site.declaration other)).isSome) :
    draft.addAllCustom site bs =
      .error (.developer (.missingMainType b.identity (b.origin site.typeName))) := by
  induction bs generalizing draft given with
  | nil => cases hb
  | cons c rest ih =>
      rw [List.map_cons, Draft.addAllCustom] at hgiven
      obtain ⟨middle, hadd, hrest⟩ := bind_eq_ok.mp hgiven
      obtain ⟨hfirst, hothers⟩ := List.forall_mem_cons.mp hothers
      rw [Draft.addAllCustom]
      by_cases hsame : c = b
      · subst hsame
        rw [addCustom_of_not_described hnone]
        rfl
      · obtain ⟨object, hobject⟩ := Option.isSome_iff_exists.mp (hfirst hsame)
        obtain ⟨next, hnext, hclaimed⟩ := addCustom_like_given hclaims hadd hobject
        rw [hnext]
        exact ih hclaimed hrest ((List.mem_cons.mp hb).resolve_left (Ne.symm hsame)) hothers

end

/-- How far a specification gets that would compile with a main type given: the rest is up to its
custom blocks. -/
theorem compile_of_given {handlers : HandlerRegistry} {layer : Nat} {spec : TypeSpec}
    {bases : List CompiledType} {name : String} {f : Factory} {t : CompiledType}
    (hunknown : handlers.find? name = none)
    (hgiven : compile handlers layer (spec.giving name f) bases = .ok t) :
    ∃ known draft : Draft,
      known.addAllCustom ⟨spec.name, layer, bases, t.ancestors⟩
        ((customBlocks handlers spec.blocks).map (Block.giving name f)) = .ok draft ∧
      ((spec.blocks.map fun b => Text.lowercase b.identity).Nodup) ∧
      (∀ e, known.addAllCustom ⟨spec.name, layer, bases, t.ancestors⟩
          (customBlocks handlers spec.blocks) = .error e →
        compile handlers layer spec bases = .error e) ∧
      ∀ next, known.addAllCustom ⟨spec.name, layer, bases, t.ancestors⟩
          (customBlocks handlers spec.blocks) = .ok next →
        ∃ u, compile handlers layer spec bases = .ok u := by
  obtain ⟨hancestors, hcheck, known, draft, hknown, hcustom, _⟩ := compile_eq_ok hgiven
  have hblocks : (spec.giving name f).blocks = spec.blocks.map (Block.giving name f) := rfl
  rw [hblocks, checkBlocks_giving] at hcheck
  rw [hblocks, knownBlocks_giving hunknown] at hknown
  rw [hblocks, customBlocks_giving] at hcustom
  change ancestorsOf spec.name bases = _ at hancestors
  change checkBlocks spec.name _ _ = _ at hcheck
  change (Draft.start spec).addAllKnown handlers ⟨spec.name, layer, bases, t.ancestors⟩ _ = _
    at hknown
  refine ⟨known, draft, hcustom, (checkBlocks_eq_ok hcheck).1, ?_, ?_⟩
  · intro e he
    rw [compile, hancestors]
    show (checkBlocks spec.name [] spec.blocks >>= _) = _
    rw [hcheck]
    show ((Draft.start spec).addAllKnown handlers _ _ >>= _) = _
    rw [hknown]
    show (known.addAllCustom _ _ >>= _) = _
    rw [he]
    rfl
  · intro next hnext
    rw [compile, hancestors]
    refine ⟨_, bind_eq_ok.mpr ⟨_, rfl, bind_eq_ok.mpr ⟨_, hcheck, bind_eq_ok.mpr ⟨_, hknown,
      bind_eq_ok.mpr ⟨_, hnext, rfl⟩⟩⟩⟩⟩

/-! ## The whole story -/

/-- An object as a custom block describes it that has some blocks behind it on a line. -/
structure CustomObject.Continues (object : CustomObject) (b : Block) (origin : Origin)
    (behind : List Block) : Prop where
  identity : object.identity = Text.lowercase b.identity
  factory : mainTypeAlong (b :: behind) = some object.factory
  /-- The arguments are exactly those that are found. -/
  arguments : ∀ key, object.kwargs.get? key = argumentAlong (b :: behind) key
  distinct : object.kwargs.keys.Nodup
  /-- To build the object is to call the factory with them; a failure names the block. -/
  builds : ∀ make w, object.materialize make w =
    match object.factory.construct object.kwargs make (w.note (.build b.identity)) with
    | (.ok v, x) => (.ok v, x)
    | (.error fault, x) =>
        (.error (.developer (.construction b.identity object.factory.calling
          object.kwargs.describe object.factory.signature fault.message origin)), x)

section

variable {line : List Compilation} {handlers : HandlerRegistry} {layer : Nat} {spec : TypeSpec}
  {b : Block}

/-- A type that would compile with a main type for its custom block compiles exactly if there is one
for it: its own, or the nearest that is inherited. -/
theorem Line.compile_of_given (h : Line line)
    (hunknown : ∀ c ∈ line, c.handlers.find? b.identity = none)
    (hfresh : ∀ c ∈ line, c.layer ≠ layer) (hcustom : handlers.find? b.identity = none)
    (hb : b ∈ spec.blocks) {f : Factory} {t : CompiledType}
    (hgiven : compile handlers layer (spec.giving b.identity f) (tip line) = .ok t) :
    (mainTypeAlong (b :: declarations line b.identity) = none →
      compile handlers layer spec (tip line) =
        .error (.developer (.missingMainType b.identity (b.origin spec.name)))) ∧
    (mainTypeAlong (b :: declarations line b.identity) ≠ none →
      ∃ u, compile handlers layer spec (tip line) = .ok u) := by
  let c : Compilation := ⟨handlers, layer, spec.giving b.identity f, tip line, t, hgiven⟩
  have hancestors : t.ancestors = line.map fun d => d.compiled.own :=
    (Line.extend (c := c) h hfresh rfl).ancestors
  obtain ⟨known, draft, hrun, hnodup, herror, hok⟩ := AppAssembly.compile_of_given hcustom hgiven
  rw [hancestors] at hrun herror hok
  change known.addAllCustom (siteOn line spec.name layer) _ = _ at hrun
  have hfactory := h.factory_eq hunknown spec.name layer (b := b) rfl
  have hdispatched : b ∈ customBlocks handlers spec.blocks := mem_customBlocks.mpr ⟨hb, hcustom⟩
  -- all other blocks are compiled as they are
  have hothers : ∀ other ∈ customBlocks handlers spec.blocks, other ≠ b →
      (customObject? ((siteOn line spec.name layer).declaration other)).isSome := by
    intro other hother hne
    have hname : Text.lowercase other.identity ≠ Text.lowercase b.identity := fun hname =>
      hne (List.inj_on_of_nodup_map hnodup (mem_customBlocks.mp hother).1 hb hname)
    have hdescribed := (addAllCustom_custom hrun).1 _ (List.mem_map_of_mem hother)
    rwa [Block.giving_of_ne hname] at hdescribed
  constructor
  · intro hnone
    rw [hnone, Option.map_eq_none_iff] at hfactory
    exact herror _ (addAllCustom_of_not_described rfl hrun hdispatched hfactory hothers)
  · intro hsome
    have hdescribed : (customObject? ((siteOn line spec.name layer).declaration b)).isSome := by
      rw [← hfactory, ne_eq, Option.map_eq_none_iff] at hsome
      exact Option.isSome_iff_ne_none.mpr hsome
    obtain ⟨next, hnext⟩ := addAllCustom_of_described rfl hrun fun other hother => by
      by_cases hsame : other = b
      · exact hsame ▸ hdescribed
      · exact hothers other hother hsame
    exact hok next hnext

/-- What a custom block in front of a line describes continues the line. -/
theorem Line.continues (h : Line line) (hunknown : ∀ c ∈ line, c.handlers.find? b.identity = none)
    (hdistinct : ∀ d ∈ declarations line b.identity, d.Distinct) (hown : b.Distinct)
    {typeName : String} {object : CustomObject}
    (hobject : customObject? ((siteOn line typeName layer).declaration b) = some object) :
    object.Continues b (b.origin typeName) (declarations line b.identity) where
  identity := (customObject?_eq_some hobject).1
  factory := by
    rw [← h.factory_eq hunknown typeName layer rfl, hobject]
    rfl
  arguments := h.kwargs_get? hunknown hdistinct rfl hown hobject
  distinct := Site.nodup_kwargs hown hobject
  builds := by
    obtain ⟨factory, _, rfl⟩ := Option.map_eq_some_iff.mp hobject
    exact fun make w => rfl

/-- What a layer wants built is built for its own type, where nothing stands in front of it. -/
theorem Hierarchy.mem_deferred_own {cs : List Compilation} (h : Hierarchy cs) {c : Compilation}
    (hc : c ∈ cs) (hplain : c.Plain) {item : Deferred}
    (hitem : item ∈ c.compiled.own.ledger.deferred) : item ∈ c.compiled.deferred := by
  obtain ⟨origin, hmember⟩ := Compilation.member?_of_mem_deferred hplain hitem
  rw [c.compiled.deferred_eq]
  refine List.mem_map_of_mem (CompiledType.mem_deferredBy ?_
    (Compilation.find?_deferred hplain hitem) (CompiledType.member?_of_own hmember))
  intro x hahead
  -- the own layer would stand among the ancestors
  have hown := h.own_notMem_ancestors hc
  rcases List.sublist_cons_iff.mp hahead with hbehind | ⟨rest, hrest, hbehind⟩
  · exact absurd (hbehind.mem (by simp)) hown
  · obtain ⟨rfl, rfl⟩ := List.cons.inj hrest
    exact absurd (hbehind.mem List.mem_cons_self) hown

/-- A custom block on a line. A type that would compile with a main type for the block is refused
for lack of one exactly if the search for the nearest main type finds none, and it compiles
otherwise. Once compiled, it has on record the object whose factory and arguments are the nearest
ones, and with the built-in handlers this object is the one that is built under the name. -/
theorem Line.custom_object (h : Line line)
    (hunknown : ∀ c ∈ line, c.handlers.find? b.identity = none)
    (hdistinct : ∀ d ∈ declarations line b.identity, d.Distinct)
    (hfresh : ∀ c ∈ line, c.layer ≠ layer) (hcustom : handlers.find? b.identity = none)
    (hb : b ∈ spec.blocks) (hown : b.Distinct) :
    ((∃ f t, compile handlers layer (spec.giving b.identity f) (tip line) = .ok t) →
      (compile handlers layer spec (tip line) =
          .error (.developer (.missingMainType b.identity (b.origin spec.name))) ↔
        mainTypeAlong (b :: declarations line b.identity) = none) ∧
      ((∃ t, compile handlers layer spec (tip line) = .ok t) ↔
        mainTypeAlong (b :: declarations line b.identity) ≠ none)) ∧
    ∀ t, compile handlers layer spec (tip line) = .ok t → ∃ object ∈ t.own.ledger.custom,
      object.Continues b (b.origin spec.name) (declarations line b.identity) ∧
      (handlers = .builtIn → spec.ledger = {} → .custom object ∈ t.deferred ∧
        ∀ other ∈ t.own.ledger.deferred, other.identity = object.identity →
          other = .custom object) := by
  constructor
  · rintro ⟨f, given, hgiven⟩
    obtain ⟨herror, hok⟩ := h.compile_of_given hunknown hfresh hcustom hb hgiven
    refine ⟨⟨fun hrefused => ?_, herror⟩, ⟨?_, hok⟩⟩
    · by_contra hsome
      obtain ⟨t, ht⟩ := hok hsome
      rw [hrefused] at ht
      cases ht
    · rintro ⟨t, ht⟩ hnone
      rw [herror hnone] at ht
      cases ht
  · intro t ht
    let c : Compilation := ⟨handlers, layer, spec, tip line, t, ht⟩
    have hline : Line (c :: line) := .extend h hfresh rfl
    obtain ⟨object, hobject, _, hrecorded⟩ :=
      c.exists_object hcustom (c.declaration?_of_mem hb)
    rw [hline.site] at hobject
    refine ⟨object, hrecorded, h.continues hunknown hdistinct hown hobject, ?_⟩
    intro hbuiltIn hunwritten
    have hplain : c.Plain := ⟨hbuiltIn, hunwritten⟩
    have hitem : .custom object ∈ c.compiled.own.ledger.deferred :=
      List.mem_append_right _ (List.mem_map_of_mem hrecorded)
    exact ⟨hline.hierarchy.mem_deferred_own List.mem_cons_self hplain hitem,
      fun other hother hsame => Compilation.deferred_unique hplain hother hitem hsame⟩

end

/-! ## A server on a line

The root says what builds the server. The type in the middle nulls out the entries, which keeps the
main type and drops the arguments. -/

namespace Serving

def server : Factory :=
  ⟨.given 0, "Server", [], [], none, .kwargs⟩

/-- The block of the root. -/
def first : Block :=
  { identity := "Server", entries := [("port", .int 1), ("host", .str "here")],
    mainType := some server }

def nulling : Block :=
  { identity := "server", entries := [("port", .int 2)], nullifyInherited := some true }

def last : Block :=
  { identity := "SERVER", entries := [("name", .str "main")] }

def cutOff : Block :=
  { identity := "Server", extend := some false }

def root : Compilation :=
  .ofOk .builtIn 0 { name := "Root", blocks := [first] } [] (by decide +kernel)

def middle : Compilation :=
  .ofOk .builtIn 1 { name := "Middle", blocks := [nulling] } (tip [root]) (by decide +kernel)

/-- A type that extends the line by a block. -/
def leaf (b : Block) : TypeSpec :=
  { name := "Leaf", blocks := [b] }

theorem line : Line [middle, root] := by
  refine .extend (.extend .empty ?_ rfl) ?_ rfl
  · simp
  · simp [root, middle, Compilation.ofOk]

theorem declarations_line (name : String) (h : Text.lowercase name = "server") :
    declarations [middle, root] name = [nulling, first] := by
  have hsame : declarations [middle, root] name = declarations [middle, root] "server" := by
    unfold declarations Compilation.declaration?
    rw [h]
    rfl
  rw [hsame]
  rfl

theorem custom_object_leaf :
    (∃ t, compile .builtIn 2 (leaf last) (tip [middle, root]) = .ok t ∧
      ∃ object ∈ t.own.ledger.custom, object.factory = server ∧ .custom object ∈ t.deferred ∧
        object.kwargs.get? "name" = some (.str "main") ∧
        object.kwargs.get? "port" = some (.int 2) ∧ object.kwargs.get? "host" = none) ∧
    compile .builtIn 2 (leaf cutOff) (tip [middle, root]) =
      .error (.developer (.missingMainType "Server" ⟨"Leaf.Server", none⟩)) := by
  have hunknown : ∀ name, Text.lowercase name = "server" → ∀ c ∈ [middle, root],
      c.handlers.find? name = none := by
    intro name hname c hc
    have hbuiltIn : c.handlers = .builtIn := by
      simp only [List.mem_cons, List.not_mem_nil, or_false] at hc
      rcases hc with rfl | rfl <;> rfl
    rw [hbuiltIn, HandlerRegistry.find?_builtIn, BlockKind.ofName, hname]
    rfl
  have hdistinct : ∀ name, Text.lowercase name = "server" →
      ∀ d ∈ declarations [middle, root] name, d.Distinct := by
    intro name hname d hd
    rw [declarations_line name hname] at hd
    simp only [List.mem_cons, List.not_mem_nil, or_false] at hd
    rcases hd with rfl | rfl <;> (unfold Block.Distinct; decide)
  have hfresh : ∀ c ∈ [middle, root], c.layer ≠ 2 := by
    simp [middle, root, Compilation.ofOk]
  have hlast : Text.lowercase last.identity = "server" := by decide +kernel
  have hcutOff : Text.lowercase cutOff.identity = "server" := by decide +kernel
  constructor
  · obtain ⟨_, hcompiled⟩ := @Line.custom_object _ .builtIn 2 (leaf last) last line
      (hunknown _ hlast) (hdistinct _ hlast) hfresh (by decide +kernel) List.mem_cons_self
      (by unfold Block.Distinct; decide)
    have ht := eq_ok_okValue (x := compile .builtIn 2 (leaf last) (tip [middle, root]))
      (by decide +kernel)
    obtain ⟨object, hrecorded, hobject, hplain⟩ := hcompiled _ ht
    rw [declarations_line _ hlast] at hobject
    refine ⟨_, ht, object, hrecorded, ?_, (hplain rfl rfl).1, ?_, ?_, ?_⟩
    · exact (Option.some.inj hobject.factory).symm
    · exact hobject.arguments "name"
    · exact hobject.arguments "port"
    · exact hobject.arguments "host"
  · obtain ⟨hrefused, _⟩ := @Line.custom_object _ .builtIn 2 (leaf cutOff) cutOff line
      (hunknown _ hcutOff) (hdistinct _ hcutOff) hfresh (by decide +kernel) List.mem_cons_self
      (by unfold Block.Distinct; decide)
    have hgiven := eq_ok_okValue
      (x := compile .builtIn 2 ((leaf cutOff).giving "Server" server) (tip [middle, root]))
      (by decide +kernel)
    exact (hrefused ⟨server, _, hgiven⟩).1.mpr rfl

end Serving

end AppAssembly
