import AppAssembly.Proofs.Hierarchy

/-!
# The blocks of a compiled layer

A layer has one merged block for every block of its specification, under the lower-case name, and
no others. Blocks with a handler and custom blocks are compiled in two passes; both insert into the
same entries, so the passes are one run of insertions (`Merges`).
-/

namespace AppAssembly

open Compile

/-- Case makes no difference to which handler a name has. -/
theorem HandlerRegistry.find?_congr {handlers : HandlerRegistry} {name other : String}
    (h : Text.lowercase name = Text.lowercase other) :
    handlers.find? name = handlers.find? other := by
  unfold find?
  rw [h]

/-- Whether a block keeps the entries it inherits. A custom block that nulls them out drops them
altogether, because no handler is there to keep the nulls. -/
def Block.keepsInherited (handlers : HandlerRegistry) (b : Block) : Bool :=
  match handlers.find? b.identity with
  | some h => !h.extendable || b.mergesInherited
  | none => b.mergesInherited && !b.nullifiesInherited

/-- The entries of a block as later types inherit them. -/
def Compile.Site.mergedEntries (site : Site) (handlers : HandlerRegistry) (b : Block) :
    Entries String Value :=
  if b.keepsInherited handlers then
    (inheritedBlock site.bases site.ancestors b.identity).entries.overlay b.entries
  else b.entries

/-! ## One block -/

theorem place_blocks {draft next : Draft} {origin : Origin} {products : Products}
    (h : draft.place origin products = .ok next) : next.blocks = draft.blocks := by
  unfold Draft.place at h
  obtain ⟨_, _, h⟩ := bind_eq_ok.mp h
  cases h
  rfl

theorem addKnown_blocks {draft next : Draft} {handler : Handler} {d : Declaration}
    (h : draft.addKnown handler d = .ok next) :
    next.blocks = draft.blocks.insert (Text.lowercase d.block.identity)
      (effectiveBlock d (!handler.extendable || d.block.mergesInherited)) := by
  unfold Draft.addKnown at h
  obtain ⟨_, _, h⟩ := bind_eq_ok.mp h
  obtain ⟨_, _, h⟩ := bind_eq_ok.mp h
  obtain ⟨placed, hplaced, h⟩ := bind_eq_ok.mp h
  cases h
  show placed.blocks.insert _ _ = _
  rw [place_blocks hplaced]

/-- A custom block leaves the block of the object it describes. -/
theorem addCustom_blocks {draft next : Draft} {d : Declaration}
    (h : draft.addCustom d = .ok next) :
    ∃ object, customObject? d = some object ∧
      next.blocks = draft.blocks.insert object.identity
        ⟨object.block, object.kwargs, some object.factory, d.origin⟩ := by
  unfold Draft.addCustom at h
  cases hobject : customObject? d with
  | none =>
      rw [hobject] at h
      cases h
  | some object =>
      rw [hobject] at h
      obtain ⟨placed, hplaced, h⟩ := bind_eq_ok.mp h
      cases h
      refine ⟨object, rfl, ?_⟩
      show placed.blocks.insert _ _ = _
      rw [place_blocks hplaced]

theorem customObject?_eq_some {d : Declaration} {object : CustomObject}
    (h : customObject? d = some object) :
    object.identity = Text.lowercase d.block.identity ∧
    object.kwargs =
      if d.block.mergesInherited && !d.block.nullifiesInherited then
        d.inherited.entries.overlay d.block.entries
      else d.block.entries := by
  obtain ⟨factory, _, rfl⟩ := Option.map_eq_some_iff.mp h
  exact ⟨rfl, rfl⟩

/-! ## A run of insertions -/

/-- What the blocks of a draft become when more blocks are compiled one after the other. -/
inductive Merges (handlers : HandlerRegistry) (site : Site) :
    Entries String EffectiveBlock → List Block → Entries String EffectiveBlock → Prop where
  | done {blocks : Entries String EffectiveBlock} : Merges handlers site blocks [] blocks
  | insert {blocks after : Entries String EffectiveBlock} {b : Block} {rest : List Block}
      (merged : EffectiveBlock) (entries : merged.entries = site.mergedEntries handlers b)
      (further : Merges handlers site (blocks.insert (Text.lowercase b.identity) merged) rest
        after) :
      Merges handlers site blocks (b :: rest) after

namespace Merges

variable {handlers : HandlerRegistry} {site : Site}
  {blocks middle after : Entries String EffectiveBlock} {bs cs : List Block}

theorem append (h : Merges handlers site blocks bs middle)
    (h' : Merges handlers site middle cs after) : Merges handlers site blocks (bs ++ cs) after := by
  induction h with
  | done => exact h'
  | insert merged entries _ ih => exact .insert merged entries (ih h')

theorem get?_of_ne (h : Merges handlers site blocks bs after) {name : String}
    (hne : ∀ b ∈ bs, Text.lowercase b.identity ≠ name) : after.get? name = blocks.get? name := by
  induction h with
  | done => rfl
  | @insert blocks after b rest merged _ _ ih =>
      rw [ih fun c hc => hne c (List.mem_cons_of_mem b hc)]
      exact Entries.get?_insert_of_ne blocks merged (hne b List.mem_cons_self)

/-- No other block has the name, so the merged block stays. -/
theorem get?_of_mem (h : Merges handlers site blocks bs after)
    (hnodup : (bs.map fun b => Text.lowercase b.identity).Nodup) {b : Block} (hb : b ∈ bs) :
    ∃ merged, after.get? (Text.lowercase b.identity) = some merged ∧
      merged.entries = site.mergedEntries handlers b := by
  induction h with
  | done => cases hb
  | @insert blocks after c rest merged entries further ih =>
      rw [List.map_cons, List.nodup_cons] at hnodup
      rcases List.mem_cons.mp hb with rfl | hb
      · refine ⟨merged, ?_, entries⟩
        rw [further.get?_of_ne, Entries.get?_insert_self]
        intro c hc hname
        exact hnodup.1 (List.mem_map.mpr ⟨c, hc, hname⟩)
      · exact ih hnodup.2 hb

end Merges

/-- The first of some blocks is compiled by its handler, and the others after it. -/
theorem addAllKnown_cons_ok {handlers : HandlerRegistry} {site : Site} {draft next : Draft}
    {b : Block} {rest : List Block}
    (h : draft.addAllKnown handlers site (b :: rest) = .ok next) :
    ∃ middle, (∀ handler, handlers.find? b.identity = some handler →
        draft.addKnown handler (site.declaration b) = .ok middle) ∧
      middle.addAllKnown handlers site rest = .ok next := by
  unfold Draft.addAllKnown at h
  cases hfind : handlers.find? b.identity with
  | none =>
      simp only [hfind] at h
      exact ⟨draft, fun _ hnone => (by cases hnone), h⟩
  | some handler =>
      simp only [hfind] at h
      obtain ⟨middle, hadd, hrest⟩ := bind_eq_ok.mp h
      refine ⟨middle, fun other hother => ?_, hrest⟩
      cases hother
      exact hadd

theorem checkFlags_eq_ok_iff {h : Handler} {b : Block} {origin : Origin} :
    checkFlags h b origin = .ok () ↔
      (b.extend = some false → h.extendable = true) ∧
        (b.nullifiesInherited = true → h.nullable = true) := by
  unfold checkFlags
  split
  · rename_i hrefused
    simp only [Bool.and_eq_true, beq_iff_eq, Bool.not_eq_true'] at hrefused
    simp [hrefused]
  rename_i hextend
  split
  · rename_i hrefused
    simp only [Bool.and_eq_true, Bool.not_eq_true'] at hrefused
    simp [hrefused]
  rename_i hnullify
  exact iff_of_true rfl
    ⟨fun hdrops => by simpa [hdrops] using hextend, fun hnulls => by simpa [hnulls] using hnullify⟩

/-- The flags of every block that was added make sense for its handler. -/
theorem addAllKnown_flags {handlers : HandlerRegistry} {site : Site} {draft next : Draft}
    {bs : List Block} (h : draft.addAllKnown handlers site bs = .ok next) {b : Block} (hb : b ∈ bs)
    {handler : Handler} (hfind : handlers.find? b.identity = some handler) :
    checkFlags handler b (b.origin site.typeName) = .ok () := by
  induction bs generalizing draft with
  | nil => cases hb
  | cons first rest ih =>
      obtain ⟨middle, hadd, hrest⟩ := addAllKnown_cons_ok h
      rcases List.mem_cons.mp hb with rfl | hb
      · obtain ⟨_, hflags, _⟩ := bind_eq_ok.mp (hadd handler hfind)
        exact hflags
      · exact ih hrest hb

theorem addAllKnown_merges {handlers : HandlerRegistry} {site : Site} {draft next : Draft}
    {bs : List Block} (hknown : ∀ b ∈ bs, handlers.contains b.identity = true)
    (h : draft.addAllKnown handlers site bs = .ok next) :
    Merges handlers site draft.blocks bs next.blocks := by
  induction bs generalizing draft with
  | nil =>
      cases h
      exact .done
  | cons b rest ih =>
      obtain ⟨handler, hfind⟩ :=
        Option.isSome_iff_exists.mp (hknown b List.mem_cons_self)
      obtain ⟨placed, hplaced, h⟩ := addAllKnown_cons_ok h
      have hrest := ih (fun c hc => hknown c (List.mem_cons_of_mem b hc)) h
      rw [addKnown_blocks (hplaced handler hfind)] at hrest
      -- what is kept depends on the handler and on the flags alone
      refine .insert _ ?_ hrest
      simp [effectiveBlock, Site.declaration, Site.mergedEntries, Block.keepsInherited, hfind]

theorem addAllCustom_merges {handlers : HandlerRegistry} {site : Site} {draft next : Draft}
    {bs : List Block} (hcustom : ∀ b ∈ bs, handlers.find? b.identity = none)
    (h : draft.addAllCustom site bs = .ok next) :
    Merges handlers site draft.blocks bs next.blocks := by
  induction bs generalizing draft with
  | nil =>
      cases h
      exact .done
  | cons b rest ih =>
      have hfind := hcustom b List.mem_cons_self
      unfold Draft.addAllCustom at h
      obtain ⟨placed, hplaced, h⟩ := bind_eq_ok.mp h
      have hrest := ih (fun c hc => hcustom c (List.mem_cons_of_mem b hc)) h
      obtain ⟨object, hobject, hblocks⟩ := addCustom_blocks hplaced
      obtain ⟨hidentity, hkwargs⟩ := customObject?_eq_some hobject
      rw [hblocks, hidentity] at hrest
      refine .insert _ ?_ hrest
      simp [hkwargs, Site.declaration, Site.mergedEntries, Block.keepsInherited, hfind]

/-! ## The blocks of a specification -/

/-- Blocks that pass the check differ in more than the case of their names. -/
theorem checkBlocks_eq_ok {typeName : String} {seen : Entries String String} {blocks : List Block}
    (h : checkBlocks typeName seen blocks = .ok ()) :
    (blocks.map fun b => Text.lowercase b.identity).Nodup ∧
      ∀ b ∈ blocks, seen.get? (Text.lowercase b.identity) = none := by
  induction blocks generalizing seen with
  | nil => simp
  | cons b rest ih =>
      unfold checkBlocks at h
      split at h
      · cases h
      cases hseen : seen.get? (Text.lowercase b.identity) with
      | some first => simp [hseen] at h
      | none =>
          simp only [hseen] at h
          obtain ⟨hnodup, hrest⟩ := ih h
          -- the name of the first block has been seen when the others are checked
          have hne : ∀ c ∈ rest, Text.lowercase b.identity ≠ Text.lowercase c.identity := by
            intro c hc hname
            have := hrest c hc
            rw [← hname, Entries.get?_insert_self] at this
            cases this
          rw [List.map_cons, List.nodup_cons]
          refine ⟨⟨?_, hnodup⟩, ?_⟩
          · intro hmem
            obtain ⟨c, hc, hname⟩ := List.mem_map.mp hmem
            exact hne c hc hname.symm
          · intro c hc
            rcases List.mem_cons.mp hc with rfl | hc
            · exact hseen
            · rw [← Entries.get?_insert_of_ne seen b.identity (hne c hc)]
              exact hrest c hc

theorem mem_knownBlocks {handlers : HandlerRegistry} {blocks : List Block} {b : Block} :
    b ∈ knownBlocks handlers blocks ↔ b ∈ blocks ∧ handlers.contains b.identity = true := by
  unfold knownBlocks
  rw [(List.mergeSort_perm _ _).mem_iff, List.mem_filter]

theorem mem_customBlocks {handlers : HandlerRegistry} {blocks : List Block} {b : Block} :
    b ∈ customBlocks handlers blocks ↔ b ∈ blocks ∧ handlers.find? b.identity = none := by
  unfold customBlocks
  rw [(List.mergeSort_perm _ _).mem_iff, List.mem_filter]
  simp [HandlerRegistry.contains]

/-- The two passes take every block of the specification. -/
theorem dispatched_perm (handlers : HandlerRegistry) (blocks : List Block) :
    (knownBlocks handlers blocks ++ customBlocks handlers blocks).Perm blocks := by
  unfold knownBlocks customBlocks
  refine List.Perm.trans ?_ (List.filter_append_perm (fun b => handlers.contains b.identity) blocks)
  exact (List.mergeSort_perm _ _).append (List.mergeSort_perm _ _)

namespace Compilation

/-- Where a compilation puts its blocks. -/
def site (c : Compilation) : Site :=
  ⟨c.spec.name, c.layer, c.bases, c.compiled.ancestors⟩

theorem merges (c : Compilation) :
    Merges c.handlers c.site [] (knownBlocks c.handlers c.spec.blocks ++
      customBlocks c.handlers c.spec.blocks) c.compiled.own.blocks := by
  obtain ⟨_, _, known, draft, hknown, hcustom, hown⟩ := compile_eq_ok c.result
  rw [hown]
  refine (addAllKnown_merges ?_ hknown).append (addAllCustom_merges ?_ hcustom)
  · exact fun b hb => (mem_knownBlocks.mp hb).2
  · exact fun b hb => (mem_customBlocks.mp hb).2

/-- The flags of a block make sense for its handler. -/
theorem flags_fit (c : Compilation) {b : Block} (hb : b ∈ c.spec.blocks) {handler : Handler}
    (hfind : c.handlers.find? b.identity = some handler) :
    (b.extend = some false → handler.extendable = true) ∧
      (b.nullifiesInherited = true → handler.nullable = true) := by
  obtain ⟨_, _, _, _, hknown, _⟩ := compile_eq_ok c.result
  have hdispatched : b ∈ knownBlocks c.handlers c.spec.blocks :=
    mem_knownBlocks.mpr ⟨hb, Option.isSome_iff_exists.mpr ⟨handler, hfind⟩⟩
  exact checkFlags_eq_ok_iff.mp (addAllKnown_flags hknown hdispatched hfind)

theorem blocks_nodup (c : Compilation) :
    (c.spec.blocks.map fun b => Text.lowercase b.identity).Nodup :=
  (checkBlocks_eq_ok (compile_eq_ok c.result).2.1).1

/-- A layer has the merged block of every block that is declared. -/
theorem block?_of_mem (c : Compilation) {b : Block} (hb : b ∈ c.spec.blocks) :
    ∃ merged, c.compiled.own.block? b.identity = some merged ∧
      merged.entries = c.site.mergedEntries c.handlers b := by
  have hperm := dispatched_perm c.handlers c.spec.blocks
  apply c.merges.get?_of_mem
  · exact (hperm.map _).nodup_iff.mpr c.blocks_nodup
  · exact hperm.mem_iff.mpr hb

/-- And it has no others. -/
theorem block?_of_ne (c : Compilation) {name : String}
    (hne : ∀ b ∈ c.spec.blocks, Text.lowercase b.identity ≠ Text.lowercase name) :
    c.compiled.own.block? name = none := by
  refine c.merges.get?_of_ne fun b hb => hne b ?_
  exact (dispatched_perm c.handlers c.spec.blocks).mem_iff.mp hb

end Compilation

end AppAssembly
