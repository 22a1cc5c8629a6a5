import AppAssembly.Proofs.Demands

/-!
# Who gets a name

While a type is compiled every name is claimed once. The members written by hand have theirs from
the start, then the blocks get theirs one after the other, in the order in which they are
dispatched. So a draft knows at every moment who claimed what (`Draft.Filled`). A block that would
get a name a second time is refused, and the refusal says which names these are. If no block is,
nothing was put over anything else: the members of the layer are what the blocks produced, in order,
followed by what was written by hand (`compile_claims`).
-/

namespace AppAssembly

open Compile

/-! ## What blocks produce -/

/-- The names that a block produces with the built-in handlers, in order. -/
def Compile.Site.producedNames (s : Site) (b : Block) : List String :=
  match b.kind with
  | .attrs | .checkers | .methods =>
      let nulled := if b.nullifiesInherited then
        (inheritedBlock s.bases s.ancestors b.identity).entries.keys else []
      firstBy id (nulled ++ b.entries.keys)
  | .components => ["components"]
  | .install | .installers | .requires => []
  | .custom => [Text.lowercase b.identity]

/-- The blocks of a type in the order in which they are dispatched. -/
def TypeSpec.dispatched (spec : TypeSpec) : List Block :=
  knownBlocks .builtIn spec.blocks ++ customBlocks .builtIn spec.blocks

theorem Compile.Site.keys_products (s : Site) (b : Block) :
    Entries.keys (s.declaration b).products = s.producedNames b := by
  have hkeys : (s.declaration b).entriesOverNulls.keys = firstBy id
      ((if b.nullifiesInherited then
        (inheritedBlock s.bases s.ancestors b.identity).entries.keys else []) ++
        b.entries.keys) := by
    have hnulls : (s.declaration b).nulls.keys = if b.nullifiesInherited then
        (inheritedBlock s.bases s.ancestors b.identity).entries.keys else [] := by
      show Entries.keys (if b.nullifiesInherited then _ else _) = _
      split
      · simp [Entries.keys, Entries.mapValues, Site.declaration]
      · rfl
    unfold Declaration.entriesOverNulls
    rw [Entries.keys_overlay, hnulls]
    · rfl
    · rw [hnulls]
      split
      · exact inheritedBlock_nodup ..
      · exact List.nodup_nil
  have hblock : (s.declaration b).block = b := rfl
  unfold Declaration.products producedNames
  rw [hblock]
  cases hkind : b.kind with
  | attrs | checkers | methods =>
      dsimp only
      rw [Entries.keys_map, hkeys]
  | components =>
      have hname := BlockKind.lowercase_of_components hkind
      show [Text.lowercase b.identity] = _
      rw [hname]
  | _ => rfl

/-! ## Claims -/

/-- Who claimed a name once some blocks were taken: whoever wrote it by hand, or else the block that
produced it. -/
def Compile.Site.claimant? (s : Site) (spec : TypeSpec) (before : List Block) (name : String) :
    Option (ClaimKind × Origin) :=
  if name ∈ spec.members.keys then some (.byHand, spec.memberOrigin name)
  else (before.find? fun b => name ∈ s.producedNames b).map fun b =>
    (.generated, b.origin s.typeName)

/-- The names of a block that were claimed before it, in the order in which it produces them. -/
def Compile.Site.conflicts (s : Site) (spec : TypeSpec) (before : List Block) (b : Block) :
    List Conflict :=
  (s.producedNames b).filterMap fun name =>
    (s.claimant? spec before name).map fun (kind, origin) => ⟨name, kind, origin⟩

section

variable {s : Site} {spec : TypeSpec} {before : List Block} {b : Block} {name : String}

theorem claimant?_eq_none_iff : s.claimant? spec before name = none ↔
    name ∉ spec.members.keys ∧ name ∉ before.flatMap s.producedNames := by
  unfold Site.claimant?
  split
  · rename_i hhand
    simp [hhand]
  · rename_i hhand
    simp [hhand]

/-- The conflicts of a block are about what is written by hand or produced before it. -/
theorem map_name_conflicts : (s.conflicts spec before b).map Conflict.name =
    (s.producedNames b).filter fun name =>
      name ∈ spec.members.keys ∨ name ∈ before.flatMap s.producedNames := by
  have hnames : ∀ names : List String,
      (names.filterMap fun name => (s.claimant? spec before name).map fun (kind, origin) =>
        (⟨name, kind, origin⟩ : Conflict)).map Conflict.name =
      names.filter fun name =>
        name ∈ spec.members.keys ∨ name ∈ before.flatMap s.producedNames := by
    intro names
    induction names with
    | nil => rfl
    | cons name rest ih =>
        cases hclaimant : s.claimant? spec before name with
        | none =>
            obtain ⟨hhand, hmade⟩ := claimant?_eq_none_iff.mp hclaimant
            rw [List.filterMap_cons_none (by rw [hclaimant]; rfl), ih,
              List.filter_cons_of_neg (by simp only [hhand, hmade]; simp)]
        | some claim =>
            have htaken : name ∈ spec.members.keys ∨ name ∈ before.flatMap s.producedNames := by
              by_contra hfree
              rw [not_or] at hfree
              rw [claimant?_eq_none_iff.mpr hfree] at hclaimant
              cases hclaimant
            rw [List.filterMap_cons_some (by rw [hclaimant]; rfl), List.map_cons, ih,
              List.filter_cons, if_pos (decide_eq_true htaken)]
  exact hnames (s.producedNames b)

end

theorem get?_start_claims (spec : TypeSpec) (name : String) :
    (Draft.start spec).claims.get? name =
      if name ∈ spec.members.keys then some (.byHand, spec.memberOrigin name) else none := by
  have hclaims : (Draft.start spec).claims = Entries.overlay []
      (spec.members.keys.map fun name => (name, ClaimKind.byHand, spec.memberOrigin name)) := by
    unfold Draft.start Claims.byHand
    rw [List.map_map]
    rfl
  rw [hclaims, Entries.get?_overlay_map]
  rfl

theorem Claims.ensureFree_eq_error {c : Claims} {origin : Origin} {names : List String} {e : Error}
    (h : c.ensureFree origin names = .error e) : ∃ first rest, c.conflicts names = first :: rest ∧
      e = .developer (.taken origin.label first.kind.description
        ((first :: rest).map fun conflict => (conflict.name, conflict.claimedBy)) origin) := by
  unfold ensureFree at h
  split at h
  · cases h
  · cases h
    exact ⟨_, _, ‹_›, rfl⟩

/-! ## Drafts that know who claimed what -/

/-- What a draft knows once some blocks were taken, and that none of them got in the way of
another. -/
structure Compile.Draft.Filled (s : Site) (spec : TypeSpec) (before : List Block) (draft : Draft) :
    Prop where
  claims : ∀ name, draft.claims.get? name = s.claimant? spec before name
  names : draft.members.keys = before.flatMap s.producedNames
  apart : (before.flatMap s.producedNames ++ spec.members.keys).Nodup

section

variable {s : Site} {spec : TypeSpec} {before bs : List Block} {b : Block} {draft next last : Draft}
  {products : Products} {made : List (Declaration × Products)}

theorem start_filled (s : Site) (hnodup : spec.members.keys.Nodup) :
    (Draft.start spec).Filled s spec [] where
  claims := get?_start_claims spec
  names := rfl
  apart := hnodup

theorem Compile.Draft.Filled.conflicts (h : draft.Filled s spec before) (b : Block) :
    draft.claims.conflicts (s.producedNames b) = s.conflicts spec before b := by
  unfold Claims.conflicts Site.conflicts
  exact List.filterMap_congr fun name _ => by rw [h.claims]

/-- One block more. -/
theorem Compile.Draft.Takes.filled (h : draft.Takes .builtIn (s.declaration b) products next)
    (hfilled : draft.Filled s spec before) : next.Filled s spec (before ++ [b]) := by
  obtain rfl : products = (s.declaration b).products :=
    h.products_eq (HandlerRegistry.builtIn_isBuiltInFor _)
  have hkeys := s.keys_products b
  have hmade : (before ++ [b]).flatMap s.producedNames =
      before.flatMap s.producedNames ++ s.producedNames b := by
    rw [List.flatMap_append, List.flatMap_singleton]
  have hfree : ∀ name ∈ s.producedNames b,
      name ∉ spec.members.keys ∧ name ∉ before.flatMap s.producedNames := by
    intro name hname
    have hnone := h.free name (hkeys ▸ hname)
    rw [hfilled.claims] at hnone
    exact claimant?_eq_none_iff.mp hnone
  have hown : (s.producedNames b).Nodup := hkeys ▸ s.nodup_products b
  obtain ⟨hbefore, hhand, hdisjoint⟩ := List.nodup_append.mp hfilled.apart
  have hfresh : (before.flatMap s.producedNames ++ s.producedNames b).Nodup := by
    refine List.nodup_append.mpr ⟨hbefore, hown, ?_⟩
    rintro name hold other hnew rfl
    exact (hfree name hnew).2 hold
  constructor
  case claims =>
    intro name
    rw [h.claims, Claims.get?_generated, hkeys, hfilled.claims]
    unfold Site.claimant?
    by_cases hname : name ∈ s.producedNames b
    · obtain ⟨hnew, hnone⟩ := hfree name hname
      have hfind : before.find? (fun c => decide (name ∈ s.producedNames c)) = none := by
        simpa using hnone
      have hlast : [b].find? (fun c => decide (name ∈ s.producedNames c)) = some b := by
        simp [hname]
      rw [if_pos hname, if_neg hnew, List.find?_append, hfind, Option.none_or, hlast]
      rfl
    · rw [if_neg hname, List.find?_append, List.find?_cons_of_neg (by simpa using hname),
        List.find?_nil, Option.or_none]
  case names =>
    have hadded : Entries.keys (Entries.mapValues
        (fun content => (⟨content, (s.declaration b).origin⟩ : Member))
          (s.declaration b).products) = s.producedNames b := by
      rw [← hkeys]
      simp [Entries.keys, Entries.mapValues]
    rw [h.members, Entries.keys_overlay_of_nodup, hadded, hfilled.names, hmade]
    rw [hadded, hfilled.names]
    exact hfresh
  case apart =>
    rw [hmade]
    refine List.nodup_append.mpr ⟨hfresh, hhand, ?_⟩
    intro name hname other hother
    rcases List.mem_append.mp hname with hname | hname
    · exact hdisjoint name hname other hother
    · rintro rfl
      exact (hfree name hname).1 hother

theorem Compile.Draft.TakesAll.filled (h : draft.TakesAll .builtIn made last)
    (hmade : made.map Prod.fst = bs.map s.declaration) (hfilled : draft.Filled s spec before) :
    last.Filled s spec (before ++ bs) := by
  induction h generalizing bs before with
  | done =>
      obtain rfl : bs = [] := List.map_eq_nil_iff.mp hmade.symm
      rwa [List.append_nil]
  | next first _ ih =>
      obtain ⟨b, rest, rfl, hb, hrest⟩ := List.map_eq_cons_iff.mp hmade.symm
      dsimp only at hb
      subst hb
      have hnext := ih hrest.symm (first.filled hfilled)
      rwa [List.append_assoc, List.singleton_append] at hnext

end

/-! ## Refusals -/

/-- The error is that names are taken. -/
def Error.isTaken : Error → Bool
  | .developer (.taken ..) => true
  | _ => false

theorem ancestorsOf_other {typeName : String} {bases : List CompiledType} {e : Error}
    (h : ancestorsOf typeName bases = .error e) : e.isTaken = false := by
  unfold ancestorsOf at h
  split at h
  · cases h
    rfl
  · split at h
    · cases h
    · cases h
      rfl

theorem checkBlocks_other {typeName : String} {seen : Entries String String} {blocks : List Block}
    {e : Error} (h : checkBlocks typeName seen blocks = .error e) : e.isTaken = false := by
  induction blocks generalizing seen with
  | nil => cases h
  | cons b rest ih =>
      unfold checkBlocks at h
      dsimp only at h
      split at h
      · cases h
        rfl
      · split at h
        · cases h
          rfl
        · exact ih h

namespace Handler

variable {d : Declaration} {l : Ledger} {e : Error}

theorem recordRequired_other {entries : Entries String Value}
    (h : recordRequired d l entries = .error e) : e.isTaken = false := by
  induction entries generalizing l with
  | nil => cases h
  | cons entry rest ih =>
      obtain ⟨key, v⟩ := entry
      unfold recordRequired at h
      cases hpaths : requiredPaths d key v with
      | ok paths =>
          simp only [hpaths] at h
          exact ih h
      | error problem =>
          simp only [hpaths] at h
          cases h
          unfold requiredPaths at hpaths
          split at hpaths
          · cases hpaths
          · cases hpaths
          · split at hpaths
            · cases hpaths
            · cases hpaths
              rfl
          · cases hpaths
            rfl

/-- A handler complains about entries and about a second block of installers, never about names. -/
theorem handle_other {handler : Handler} (hfind : d.block.kind.handler? = some handler)
    (h : handler.handle d l = .error e) : e.isTaken = false := by
  have hinstallers : ∀ name, (installersNamed name).handle d l = .error e → e.isTaken = false := by
    intro name h
    unfold installersNamed Ledger.setInstallers at h
    dsimp only at h
    split at h
    · cases h
      rfl
    · split at h
      · cases h
      · rename_i hset
        split at hset
        · cases hset
          cases h
          rfl
        · cases hset
  cases hkind : d.block.kind <;> rw [hkind] at hfind <;> cases hfind
  · cases h
  · unfold checkers at h
    dsimp only at h
    split at h
    · cases h
      rfl
    · cases h
  · cases h
  · exact hinstallers _ h
  · exact hinstallers _ h
  · unfold methods at h
    dsimp only at h
    split at h
    · cases h
      rfl
    · cases h
  · unfold requires at h
    dsimp only at h
    split at h
    · cases h
    · rename_i hrecorded
      cases h
      exact recordRequired_other hrecorded

end Handler

theorem checkFlags_other {handler : Handler} {b : Block} {origin : Origin} {e : Error}
    (h : checkFlags handler b origin = .error e) : e.isTaken = false := by
  unfold checkFlags at h
  split at h
  · cases h
    rfl
  · split at h
    · cases h
      rfl
    · cases h

theorem place_eq_error {draft : Draft} {origin : Origin} {products : Products} {e : Error}
    (h : draft.place origin products = .error e) :
    draft.claims.ensureFree origin (Entries.keys products) = .error e := by
  unfold Draft.place at h
  rcases bind_eq_error.mp h with h | ⟨_, _, h⟩
  · exact h
  · cases h

section

variable {s : Site} {spec : TypeSpec} {before bs : List Block} {b : Block} {draft : Draft}
  {e : Error}

theorem addKnown_refused {handler : Handler}
    (hfind : HandlerRegistry.builtIn.find? b.identity = some handler)
    (h : draft.addKnown handler (s.declaration b) = .error e) (he : e.isTaken = true) :
    draft.claims.ensureFree (b.origin s.typeName) (s.producedNames b) = .error e := by
  have hkind : (s.declaration b).block.kind.handler? = some handler :=
    (HandlerRegistry.builtIn_isBuiltInFor b).symm.trans hfind
  unfold Draft.addKnown at h
  rcases bind_eq_error.mp h with h | ⟨_, _, h⟩
  · rw [checkFlags_other h] at he
    cases he
  rcases bind_eq_error.mp h with h | ⟨⟨products, after⟩, hhandle, h⟩
  · rw [Handler.handle_other hkind h] at he
    cases he
  rcases bind_eq_error.mp h with h | ⟨_, _, h⟩
  · obtain ⟨rfl, _⟩ := Handler.handle_contributes hkind hhandle
    have hrefused := place_eq_error h
    rw [s.keys_products b] at hrefused
    exact hrefused
  · cases h

theorem addCustom_refused (hfind : HandlerRegistry.builtIn.find? b.identity = none)
    (h : draft.addCustom (s.declaration b) = .error e) (he : e.isTaken = true) :
    draft.claims.ensureFree (b.origin s.typeName) (s.producedNames b) = .error e := by
  have hkind : b.kind = .custom :=
    BlockKind.eq_custom ((HandlerRegistry.builtIn_isBuiltInFor b).symm.trans hfind)
  unfold Draft.addCustom at h
  cases hobject : customObject? (s.declaration b) with
  | none =>
      rw [hobject] at h
      cases h
      cases he
  | some object =>
      rw [hobject] at h
      have hidentity : object.identity = Text.lowercase b.identity :=
        (customObject?_eq_some hobject).1
      have hnames : s.producedNames b = [object.identity] := by
        unfold Site.producedNames
        rw [hkind, hidentity]
      rcases bind_eq_error.mp h with h | ⟨_, _, h⟩
      · have hrefused := place_eq_error h
        rw [hnames]
        exact hrefused
      · cases h

/-- A block is refused since some of its names are taken, and those before it were not. -/
def Refuses (s : Site) (spec : TypeSpec) (before bs : List Block) (e : Error) : Prop :=
  ∃ near b far, bs = near ++ b :: far ∧ ∃ draft : Draft, draft.Filled s spec (before ++ near) ∧
    draft.claims.ensureFree (b.origin s.typeName) (s.producedNames b) = .error e

theorem Refuses.cons (h : Refuses s spec (before ++ [b]) bs e) :
    Refuses s spec before (b :: bs) e := by
  obtain ⟨near, c, far, rfl, draft, hfilled, hrefused⟩ := h
  rw [List.append_assoc, List.singleton_append] at hfilled
  exact ⟨b :: near, c, far, rfl, draft, hfilled, hrefused⟩

theorem refuses_first (hfilled : draft.Filled s spec before)
    (h : draft.claims.ensureFree (b.origin s.typeName) (s.producedNames b) = .error e) :
    Refuses s spec before (b :: bs) e := by
  refine ⟨[], b, bs, rfl, draft, ?_, h⟩
  rwa [List.append_nil]

theorem addAllKnown_refuses (hknown : ∀ b ∈ bs, HandlerRegistry.builtIn.contains b.identity = true)
    (hfilled : draft.Filled s spec before) (h : draft.addAllKnown .builtIn s bs = .error e)
    (he : e.isTaken = true) : Refuses s spec before bs e := by
  induction bs generalizing draft before with
  | nil => cases h
  | cons b rest ih =>
      obtain ⟨handler, hfind⟩ := Option.isSome_iff_exists.mp (hknown b List.mem_cons_self)
      unfold Draft.addAllKnown at h
      simp only [hfind] at h
      rcases bind_eq_error.mp h with h | ⟨next, hadd, h⟩
      · exact refuses_first hfilled (addKnown_refused hfind h he)
      · obtain ⟨products, htakes⟩ := addKnown_takes (d := s.declaration b) hfind hadd
        have hrest := ih (fun c hc => hknown c (List.mem_cons_of_mem b hc))
          (htakes.filled hfilled) h
        exact hrest.cons

theorem addAllCustom_refuses (hcustom : ∀ b ∈ bs, HandlerRegistry.builtIn.find? b.identity = none)
    (hfilled : draft.Filled s spec before) (h : draft.addAllCustom s bs = .error e)
    (he : e.isTaken = true) : Refuses s spec before bs e := by
  induction bs generalizing draft before with
  | nil => cases h
  | cons b rest ih =>
      have hfind := hcustom b List.mem_cons_self
      unfold Draft.addAllCustom at h
      rcases bind_eq_error.mp h with h | ⟨next, hadd, h⟩
      · exact refuses_first hfilled (addCustom_refused hfind h he)
      · obtain ⟨products, htakes⟩ := addCustom_takes (d := s.declaration b) hfind hadd
        have hrest := ih (fun c hc => hcustom c (List.mem_cons_of_mem b hc))
          (htakes.filled hfilled) h
        exact hrest.cons

end

/-! ## A call of compile -/

/-- Where a call of `compile` puts the blocks of a type. Without an order for the ancestors it fails
before any block is looked at. -/
def siteOf (layer : Nat) (spec : TypeSpec) (bases : List CompiledType) : Site where
  typeName := spec.name
  layer := layer
  bases := bases
  ancestors := (ancestorsOf spec.name bases).toOption.getD []

section

variable {layer : Nat} {spec : TypeSpec} {bases : List CompiledType}

theorem siteOf_eq {ancestors : List Layer} (h : ancestorsOf spec.name bases = .ok ancestors) :
    siteOf layer spec bases = ⟨spec.name, layer, bases, ancestors⟩ := by
  rw [siteOf, h]
  rfl

theorem compile_refuses (hnodup : spec.members.keys.Nodup) {e : Error}
    (h : compile .builtIn layer spec bases = .error e) (he : e.isTaken = true) :
    (spec.blocks.map fun b => Text.lowercase b.identity).Nodup ∧
      Refuses (siteOf layer spec bases) spec [] spec.dispatched e := by
  rw [compile] at h
  rcases bind_eq_error.mp h with h | ⟨ancestors, hancestors, h⟩
  · rw [ancestorsOf_other h] at he
    cases he
  rcases bind_eq_error.mp h with h | ⟨_, hcheck, h⟩
  · rw [checkBlocks_other h] at he
    cases he
  refine ⟨(checkBlocks_eq_ok hcheck).1, ?_⟩
  have hknown : ∀ b ∈ knownBlocks .builtIn spec.blocks,
      HandlerRegistry.builtIn.contains b.identity = true :=
    fun b hb => (mem_knownBlocks.mp hb).2
  have hcustom : ∀ b ∈ customBlocks .builtIn spec.blocks,
      HandlerRegistry.builtIn.find? b.identity = none :=
    fun b hb => (mem_customBlocks.mp hb).2
  have hstart := start_filled (siteOf layer spec bases) hnodup
  have hsite : (⟨spec.name, layer, bases, ancestors⟩ : Site) = siteOf layer spec bases :=
    (siteOf_eq hancestors).symm
  rw [hsite] at h
  rcases bind_eq_error.mp h with h | ⟨known, hadded, h⟩
  · obtain ⟨near, b, far, hsplit, hrefused⟩ := addAllKnown_refuses hknown hstart h he
    refine ⟨near, b, far ++ customBlocks .builtIn spec.blocks, ?_, hrefused⟩
    rw [TypeSpec.dispatched, hsplit, List.append_assoc]
    rfl
  rcases bind_eq_error.mp h with h | ⟨_, _, h⟩
  · obtain ⟨made, hmade, htakes⟩ := addAllKnown_takesAll hknown hadded
    have hfilled := htakes.filled hmade hstart
    obtain ⟨near, b, far, hsplit, draft, hrefused⟩ := addAllCustom_refuses hcustom hfilled h he
    refine ⟨knownBlocks .builtIn spec.blocks ++ near, b, far, ?_, draft, hrefused⟩
    rw [TypeSpec.dispatched, hsplit, List.append_assoc]
  · cases h

/-- Some name is produced by two blocks, or produced by a block and written by hand. -/
def Compile.Site.Collides (s : Site) (spec : TypeSpec) : Prop :=
  ∃ b ∈ spec.blocks, ∃ name ∈ s.producedNames b,
    name ∈ spec.members.keys ∨ ∃ other ∈ spec.blocks, other ≠ b ∧ name ∈ s.producedNames other

theorem not_collides {s : Site}
    (h : (spec.dispatched.flatMap s.producedNames ++ spec.members.keys).Nodup) :
    ¬ s.Collides spec := by
  have hmem : ∀ b ∈ spec.blocks, b ∈ spec.dispatched :=
    fun b hb => (dispatched_perm .builtIn spec.blocks).mem_iff.mpr hb
  obtain ⟨hmade, _, hdisjoint⟩ := List.nodup_append.mp h
  rintro ⟨b, hb, name, hname, hhand | ⟨other, hother, hne, hsame⟩⟩
  · exact hdisjoint name (List.mem_flatMap.mpr ⟨b, hmem b hb, hname⟩) name hhand rfl
  · -- the other block is on one side of this one
    obtain ⟨near, far, hsplit⟩ := List.append_of_mem (hmem b hb)
    rw [hsplit, List.flatMap_append, List.flatMap_cons] at hmade
    obtain ⟨_, hlater, hearlier⟩ := List.nodup_append.mp hmade
    have hother := hmem other hother
    rw [hsplit] at hother
    rcases List.mem_append.mp hother with hnear | hfar
    · exact hearlier name (List.mem_flatMap.mpr ⟨other, hnear, hsame⟩) name
        (List.mem_append_left _ hname) rfl
    · obtain hfar := (List.mem_cons.mp hfar).resolve_left hne
      exact (List.nodup_append.mp hlater).2.2 name hname name
        (List.mem_flatMap.mpr ⟨other, hfar, hsame⟩) rfl

theorem Refuses.collides {s : Site} {e : Error}
    (hnodup : (spec.blocks.map fun b => Text.lowercase b.identity).Nodup)
    (h : Refuses s spec [] spec.dispatched e) : s.Collides spec := by
  obtain ⟨near, b, far, hsplit, draft, hfilled, hrefused⟩ := h
  obtain ⟨_, _, hconflicts, _⟩ := Claims.ensureFree_eq_error hrefused
  rw [hfilled.conflicts, List.nil_append] at hconflicts
  have hperm := dispatched_perm .builtIn spec.blocks
  have hdispatched : (spec.dispatched.map fun b => Text.lowercase b.identity).Nodup :=
    (hperm.map _).nodup_iff.mpr hnodup
  have hmem : ∀ c ∈ spec.dispatched, c ∈ spec.blocks := fun c hc => hperm.mem_iff.mp hc
  rw [hsplit] at hdispatched hmem
  have hne : ∀ c ∈ near, c ≠ b := by
    rintro c hc rfl
    rw [List.map_append, List.map_cons] at hdispatched
    exact (List.nodup_append.mp hdispatched).2.2 _ (List.mem_map_of_mem hc) _
      List.mem_cons_self rfl
  have hconflict : (s.conflicts spec near b).map Conflict.name ≠ [] := by
    simp [hconflicts]
  rw [map_name_conflicts] at hconflict
  obtain ⟨name, hname⟩ := List.exists_mem_of_ne_nil _ hconflict
  obtain ⟨hproduced, htaken⟩ := List.mem_filter.mp hname
  refine ⟨b, hmem b (by simp), name, hproduced, ?_⟩
  refine (of_decide_eq_true htaken).imp_right fun hmade => ?_
  obtain ⟨c, hc, hsame⟩ := List.mem_flatMap.mp hmade
  exact ⟨c, hmem c (List.mem_append_left _ hc), hne c hc, hsame⟩

/-- What compiling made of a type, if it succeeded. -/
theorem compile_members (hnodup : spec.members.keys.Nodup) {t : CompiledType}
    (h : compile .builtIn layer spec bases = .ok t) :
    t.own.members.keys =
        spec.dispatched.flatMap (siteOf layer spec bases).producedNames ++ spec.members.keys ∧
      (spec.dispatched.flatMap (siteOf layer spec bases).producedNames ++
        spec.members.keys).Nodup := by
  let c : Compilation := ⟨.builtIn, layer, spec, bases, t, h⟩
  have hsite : c.site = siteOf layer spec bases := (siteOf_eq c.ancestors).symm
  obtain ⟨made, draft, hdrafted⟩ := c.exists_drafted
  have hfilled : draft.Filled c.site spec ([] ++ spec.dispatched) :=
    hdrafted.takes.filled hdrafted.declarations (start_filled c.site hnodup)
  rw [hsite, List.nil_append] at hfilled
  refine ⟨?_, hfilled.apart⟩
  have hhand := Entries.keys_map (fun name v => (⟨.value v, spec.memberOrigin name⟩ : Member))
    spec.members
  show c.compiled.own.members.keys = _
  rw [hdrafted.members, Entries.keys_overlay_of_nodup, hhand, hfilled.names]
  rw [hhand, hfilled.names]
  exact hfilled.apart

/-- Nothing declared on a type is lost or overwritten. If compiling fails for names alone, some name
is produced twice or produced and written by hand. The refusal is about the first block in the order
of dispatch that is in the way: it lists its names that were claimed before, in the order in which
the block produces them, with whoever claimed them. If compiling succeeds, the members are what the
blocks produced and then what was written by hand, all different, and what was written by hand has
its value. -/
theorem compile_claims (layer : Nat) (spec : TypeSpec) (bases : List CompiledType)
    (hnodup : spec.members.keys.Nodup) :
    ((∀ e, compile .builtIn layer spec bases = .error e → e.isTaken = true) →
      ((∃ e, compile .builtIn layer spec bases = .error e ∧ e.isTaken = true) ↔
        (siteOf layer spec bases).Collides spec)) ∧
    (∀ e, compile .builtIn layer spec bases = .error e → e.isTaken = true →
      ∃ near b far, spec.dispatched = near ++ b :: far ∧
        (near.flatMap (siteOf layer spec bases).producedNames ++ spec.members.keys).Nodup ∧
        ∃ first rest, (siteOf layer spec bases).conflicts spec near b = first :: rest ∧
          e = .developer (.taken (b.origin spec.name).label first.kind.description
            ((first :: rest).map fun conflict => (conflict.name, conflict.claimedBy))
            (b.origin spec.name))) ∧
    ∀ t, compile .builtIn layer spec bases = .ok t →
      t.own.members.keys =
        spec.dispatched.flatMap (siteOf layer spec bases).producedNames ++ spec.members.keys ∧
      t.own.members.keys.Nodup ∧
      ∀ name v, (name, v) ∈ spec.members →
        t.own.member? name = some ⟨.value v, spec.memberOrigin name⟩ := by
  refine ⟨fun honly => ⟨?_, fun hcollides => ?_⟩, fun e h he => ?_, fun t h => ?_⟩
  · rintro ⟨e, h, he⟩
    obtain ⟨hblocks, hrefuses⟩ := compile_refuses hnodup h he
    exact hrefuses.collides hblocks
  · cases h : compile .builtIn layer spec bases with
    | error e => exact ⟨e, rfl, honly e h⟩
    | ok t => exact absurd hcollides (not_collides (compile_members hnodup h).2)
  · obtain ⟨_, near, b, far, hsplit, draft, hfilled, hrefused⟩ := compile_refuses hnodup h he
    obtain ⟨first, rest, hconflicts, rfl⟩ := Claims.ensureFree_eq_error hrefused
    rw [hfilled.conflicts] at hconflicts
    exact ⟨near, b, far, hsplit, hfilled.apart, first, rest, hconflicts, rfl⟩
  · obtain ⟨hkeys, hapart⟩ := compile_members hnodup h
    refine ⟨hkeys, hkeys ▸ hapart, fun name v hv => ?_⟩
    exact Compilation.member?_of_byHand (c := ⟨.builtIn, layer, spec, bases, t, h⟩) hnodup hv

end

/-! ## A name for two blocks

The attribute "cache" of one block has the name under which the other one would put its object. -/

namespace Contested

def attributes : Block :=
  { identity := "Attrs", entries := [("mode", .str "fast"), ("cache", .int 1)] }

def cache : Block :=
  { identity := "Cache", mainType := some ⟨.given 0, "Cache", [], [], none, .constant (.int 3)⟩ }

def spec : TypeSpec :=
  { name := "Shop", blocks := [cache, attributes], members := [("open", .int 9)] }

theorem compile_spec : (compile .builtIn 0 spec []).map (fun _ => ()) =
    .error (.developer (.taken "Shop.Cache" ClaimKind.generated.description
      [("cache", attributes.origin "Shop")] (cache.origin "Shop"))) := by
  decide +kernel

theorem compile_claims_spec : (siteOf 0 spec []).Collides spec := by
  cases h : compile .builtIn 0 spec [] with
  | ok t =>
      have hcompile := compile_spec
      rw [h] at hcompile
      cases hcompile
  | error e =>
      have htaken : e.isTaken = true := by
        have hcompile := compile_spec
        rw [h] at hcompile
        cases hcompile
        rfl
      refine ((compile_claims 0 spec [] (by decide)).1 fun e' h' => ?_).mp ⟨e, h, htaken⟩
      rw [h] at h'
      cases h'
      exact htaken

end Contested

end AppAssembly
