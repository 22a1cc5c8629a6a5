import AppAssembly.Proofs.Blocks

/-!
# Where an inherited entry comes from

A block that merges what it inherits gets every value from the nearest ancestor whose merged block
has the key. That ancestor may have it only by inheritance, from before a further type declared the
key anew. The value that comes out is then the one that was overridden. This happens if such a copy
stands in front of the override, and in no other case.
-/

namespace AppAssembly

open Compile

/-- The value that a layer's block has under a key, after merging. -/
def Layer.entry? (l : Layer) (block key : String) : Option Value :=
  (l.block? block).bind fun merged => merged.entries.get? key

namespace Compilation

/-- The block that a type declares under a name, in any case. -/
def declaration? (c : Compilation) (name : String) : Option Block :=
  c.spec.blocks.find? fun b => Text.lowercase b.identity = Text.lowercase name

/-- The value that a type declares itself under a key of a block. -/
def declares? (c : Compilation) (block key : String) : Option Value :=
  (c.declaration? block).bind fun b => (Entries.ofPairs b.entries).get? key

end Compilation

/-- Every block of a name keeps what it inherits: it neither drops nor nulls it. -/
def MergesAll (cs : List Compilation) (block : String) : Prop :=
  ∀ c ∈ cs, ∀ b, c.declaration? block = some b →
    b.mergesInherited = true ∧ b.nullifiesInherited = false

theorem Block.keepsInherited_of_merges {b : Block} (handlers : HandlerRegistry)
    (hmerges : b.mergesInherited = true) (hnullifies : b.nullifiesInherited = false) :
    b.keepsInherited handlers = true := by
  unfold Block.keepsInherited
  split <;> simp [hmerges, hnullifies]

/-! ## One merge -/

/-- What is inherited under a key is what the nearest ancestor with that key has. -/
theorem inheritedBlock_get? {bases : List CompiledType} {ancestors : List Layer}
    {block key : String} {v : Value}
    (h : (inheritedBlock bases ancestors block).entries.get? key = some v) :
    (ancestors.findSome? fun layer => layer.entry? block key) = some v := by
  unfold inheritedBlock at h
  rw [Entries.get?_filterMap] at h
  split at h
  · rw [← List.head?_filterMap, List.filterMap_filterMap, List.head?_filterMap] at h
    exact h
  · cases h

/-- Blocks are found in any case. -/
theorem inheritedBlock_congr {bases : List CompiledType} {ancestors : List Layer}
    {block other : String} (h : Text.lowercase block = Text.lowercase other) :
    inheritedBlock bases ancestors block = inheritedBlock bases ancestors other := by
  unfold inheritedBlock CompiledType.block? Layer.block?
  rw [h]

namespace Compilation

theorem declaration?_eq_some {c : Compilation} {block : String} {b : Block}
    (h : c.declaration? block = some b) :
    b ∈ c.spec.blocks ∧ Text.lowercase b.identity = Text.lowercase block := by
  refine ⟨List.mem_of_find?_eq_some h, ?_⟩
  simpa using List.find?_some h

/-- The merged block of a declared one, by its name in any case. -/
theorem block?_of_declaration? {c : Compilation} {block : String} {b : Block}
    (h : c.declaration? block = some b) :
    ∃ merged, c.compiled.own.block? block = some merged ∧
      merged.entries = c.site.mergedEntries c.handlers b := by
  obtain ⟨hb, hname⟩ := declaration?_eq_some h
  obtain ⟨merged, hblock, hentries⟩ := c.block?_of_mem hb
  refine ⟨merged, ?_, hentries⟩
  rw [← hblock]
  unfold Layer.block?
  rw [hname]

theorem block?_of_not_declared {c : Compilation} {block : String}
    (h : c.declaration? block = none) : c.compiled.own.block? block = none := by
  refine c.block?_of_ne ?_
  simpa [declaration?] using h

/-- An entry of a layer is declared there or inherited. -/
theorem entry?_own {cs : List Compilation} {c : Compilation} (hc : c ∈ cs) {block : String}
    (hmerges : MergesAll cs block) (key : String) :
    c.compiled.own.entry? block key =
      (c.declares? block key).or ((c.declaration? block).bind fun _ =>
        (inheritedBlock c.bases c.compiled.ancestors block).entries.get? key) := by
  unfold Layer.entry? declares?
  cases hdeclared : c.declaration? block with
  | none => simp [block?_of_not_declared hdeclared]
  | some b =>
      obtain ⟨_, hname⟩ := declaration?_eq_some hdeclared
      obtain ⟨merged, hblock, hentries⟩ := block?_of_declaration? hdeclared
      obtain ⟨hkeeps, hnulls⟩ := hmerges c hc b hdeclared
      unfold Site.mergedEntries at hentries
      rw [if_pos (Block.keepsInherited_of_merges c.handlers hkeeps hnulls)] at hentries
      simp only [hblock, Option.bind_some, hentries, Entries.get?_overlay,
        inheritedBlock_congr hname, site]

end Compilation

/-! ## Sources -/

theorem findSome?_eq_some_iff_find? {α β : Type} {f : α → Option β} {l : List α} {v : β} :
    l.findSome? f = some v ↔ ∃ a, l.find? (fun a => (f a).isSome) = some a ∧ f a = some v := by
  induction l with
  | nil => simp
  | cons b rest ih =>
      cases hb : f b with
      | none => simp [hb, ih]
      | some w => simp [hb]

/-- What is found first stands before everything else that might have been found. -/
theorem sublist_of_find?_eq_some {α : Type} {found : α → Bool} {l : List α} {a b : α}
    (h : l.find? found = some a) (hb : b ∈ l) (hfound : found b = true) (hne : b ≠ a) :
    [a, b].Sublist l := by
  obtain ⟨_, before, after, rfl, hbefore⟩ := List.find?_eq_some_iff_append.mp h
  rcases List.mem_append.mp hb with hb | hb
  · have := hbefore b hb
    simp [hfound] at this
  · rcases List.mem_cons.mp hb with rfl | hb
    · exact absurd rfl hne
    · refine List.Sublist.trans ?_ (List.sublist_append_right before _)
      exact (List.singleton_sublist.mpr hb).cons_cons a

/-- The type whose declaration an entry goes back to: the type itself, or else the type to which
the entry of the nearest ancestor with that key goes back. -/
inductive Source (cs : List Compilation) (block key : String) :
    Compilation → Compilation → Prop where
  | declared {d : Compilation} {v : Value} (declares : d.declares? block key = some v) :
      Source cs block key d d
  | inherited {d p a : Compilation} (made : p ∈ cs) (silent : d.declares? block key = none)
      (nearest : d.compiled.ancestors.find? (fun layer => (layer.entry? block key).isSome) =
        some p.compiled.own)
      (further : Source cs block key p a) : Source cs block key d a

/-- What stands in the way of a declaration: a type that is a part of another one, inherits from
the declaring type and declares the same key. -/
structure Overrides (block key : String) (d a x : Compilation) : Prop where
  part : x.compiled.own ∈ d.compiled.layers
  inherits : a.compiled.own ∈ x.compiled.ancestors
  declares : (x.declares? block key).isSome

/-- What undoes an override: in front of it, a type that has the overridden value without
declaring it, and that knows nothing of the override. -/
structure StaleCopy (block key : String) (d a x p : Compilation) : Prop where
  ahead : [p.compiled.own, x.compiled.own].Sublist d.compiled.ancestors
  inherits : a.compiled.own ∈ p.compiled.ancestors
  unaware : x.compiled.own ∉ p.compiled.layers
  silent : p.declares? block key = none
  copied : p.compiled.own.entry? block key = a.declares? block key

section

variable {cs : List Compilation} {block key : String} {d a : Compilation}

theorem Source.mem (h : Hierarchy cs) (hd : d ∈ cs) (hsource : Source cs block key d a) :
    a ∈ cs ∧ a.compiled.own ∈ d.compiled.layers := by
  induction hsource with
  | declared _ => exact ⟨hd, List.mem_cons_self⟩
  | inherited hp _ hnearest _ ih =>
      obtain ⟨ha, hmem⟩ := ih hp
      have hown := List.mem_of_find?_eq_some hnearest
      exact ⟨ha, List.mem_cons_of_mem _ ((h.ancestor_sublist hd hp hown).mem hmem)⟩

/-- The value under a key is the nearest ancestor's, unless the type declares one. -/
theorem nearest_entry (hmerges : MergesAll cs block) (hd : d ∈ cs) {v : Value}
    (hentry : d.compiled.own.entry? block key = some v) (hsilent : d.declares? block key = none) :
    ∃ layer, d.compiled.ancestors.find? (fun layer => (layer.entry? block key).isSome) =
      some layer ∧ layer.entry? block key = some v := by
  rw [Compilation.entry?_own hd hmerges, hsilent, Option.none_or] at hentry
  obtain ⟨_, _, hinherited⟩ := Option.bind_eq_some_iff.mp hentry
  exact findSome?_eq_some_iff_find?.mp (inheritedBlock_get? hinherited)

theorem Source.declares (hmerges : MergesAll cs block) (hd : d ∈ cs)
    (hsource : Source cs block key d a) {v : Value}
    (hentry : d.compiled.own.entry? block key = some v) : a.declares? block key = some v := by
  induction hsource with
  | declared hdeclares =>
      rw [Compilation.entry?_own hd hmerges, hdeclares, Option.some_or] at hentry
      rw [hdeclares, hentry]
  | inherited hp hsilent hnearest _ ih =>
      obtain ⟨layer, hfind, hlayer⟩ := nearest_entry hmerges hd hentry hsilent
      rw [hnearest] at hfind
      obtain rfl := Option.some.inj hfind
      exact ih hp hlayer

/-- Every entry goes back to a declaration. The induction is on the number of layers, which an
ancestor has fewer of. -/
theorem exists_source (h : Hierarchy cs) (hmerges : MergesAll cs block) (hd : d ∈ cs) {v : Value}
    (hentry : d.compiled.own.entry? block key = some v) : ∃ a, Source cs block key d a := by
  induction hn : d.compiled.layers.length using Nat.strongRecOn generalizing d with
  | ind n ih =>
      cases hdeclares : d.declares? block key with
      | some w => exact ⟨d, .declared hdeclares⟩
      | none =>
          obtain ⟨layer, hfind, hlayer⟩ := nearest_entry hmerges hd hentry hdeclares
          obtain ⟨p, hp, rfl, hsub⟩ := h.ancestor_made hd (List.mem_of_find?_eq_some hfind)
          have hlt : p.compiled.layers.length < n := by
            have hle := hsub.length_le
            have hlayers : d.compiled.layers.length = d.compiled.ancestors.length + 1 := rfl
            omega
          obtain ⟨a, ha⟩ := ih _ hlt hp hlayer rfl
          exact ⟨a, .inherited hp hdeclares hfind ha⟩

/-! ## Overrides -/

/-- Nobody overrides a type's own declarations for itself. -/
theorem not_overrides_self (h : Hierarchy cs) (hd : d ∈ cs) {x : Compilation} (hx : x ∈ cs) :
    ¬ Overrides block key d d x := by
  rintro ⟨hpart, hinherits, _⟩
  rcases List.mem_cons.mp hpart with hown | hpart
  · obtain rfl := h.eq_of_id hx hd (congrArg Layer.id hown)
    exact h.own_notMem_ancestors hx hinherits
  · have hsub := h.ancestor_sublist hd hx hpart
    exact h.own_notMem_ancestors hd (hsub.mem (List.mem_cons_of_mem _ hinherits))

/-- A type that overrides something has an entry for it. -/
theorem Overrides.entry (hmerges : MergesAll cs block) {x : Compilation} (hx : x ∈ cs)
    (hover : Overrides block key d a x) : (x.compiled.own.entry? block key).isSome := by
  obtain ⟨w, hw⟩ := Option.isSome_iff_exists.mp hover.declares
  rw [Compilation.entry?_own hx hmerges, hw, Option.some_or]
  rfl

/-- Where the source of an entry is overridden, a copy of it stands in front of an override. -/
theorem Source.staleCopy (h : Hierarchy cs) (hmerges : MergesAll cs block) (hd : d ∈ cs)
    (hsource : Source cs block key d a) {v : Value}
    (hentry : d.compiled.own.entry? block key = some v)
    (hover : ∃ x ∈ cs, Overrides block key d a x) :
    ∃ x ∈ cs, ∃ p ∈ cs, Overrides block key d a x ∧ StaleCopy block key d a x p := by
  induction hsource with
  | declared _ =>
      obtain ⟨x, hx, hover⟩ := hover
      exact absurd hover (not_overrides_self h hd hx)
  | @inherited d p a hp hsilent hnearest further ih =>
      obtain ⟨x, hx, hover⟩ := hover
      obtain ⟨layer, hfind, hlayer⟩ := nearest_entry hmerges hd hentry hsilent
      rw [hnearest] at hfind
      obtain rfl := Option.some.inj hfind
      have hsub := h.ancestor_sublist hd hp (List.mem_of_find?_eq_some hnearest)
      by_cases hpart : x.compiled.own ∈ p.compiled.layers
      · -- the nearest ancestor has the override among its own layers, and undoes it already
        obtain ⟨y, hy, q, hq, hover, hcopy⟩ :=
          ih hp hlayer ⟨x, hx, hpart, hover.inherits, hover.declares⟩
        refine ⟨y, hy, q, hq, ⟨List.mem_cons_of_mem _ (hsub.mem hover.part), hover.inherits,
          hover.declares⟩, ?_⟩
        have hahead := (hcopy.ahead.cons p.compiled.own).trans hsub
        exact ⟨hahead, hcopy.inherits, hcopy.unaware, hcopy.silent, hcopy.copied⟩
      · -- the nearest ancestor is the copy: it stands in front of the override
        have hxd : x.compiled.own ∈ d.compiled.ancestors := by
          rcases List.mem_cons.mp hover.part with hown | hxd
          · obtain rfl := h.eq_of_id hx hd (congrArg Layer.id hown)
            have hdeclares := hover.declares
            rw [hsilent] at hdeclares
            cases hdeclares
          · exact hxd
        have hne : x.compiled.own ≠ p.compiled.own := by
          intro hown
          exact hpart (hown ▸ List.mem_cons_self)
        have hahead := sublist_of_find?_eq_some hnearest hxd (hover.entry hmerges hx) hne
        -- if it declared the key itself, the override would inherit from it and stand in front
        have hpa : p.compiled.own ≠ a.compiled.own := by
          intro hown
          have hback : [x.compiled.own, p.compiled.own].Sublist d.compiled.ancestors := by
            refine List.Sublist.trans ?_ (h.ancestor_sublist hd hx hxd)
            rw [hown]
            exact (List.singleton_sublist.mpr hover.inherits).cons_cons _
          exact Linearization.not_sublist_swap (h.nodup_ancestors hd) hahead hback
        have hmem : a.compiled.own ∈ p.compiled.ancestors := by
          rcases List.mem_cons.mp (further.mem h hp).2 with hown | hmem
          · exact absurd hown.symm hpa
          · exact hmem
        refine ⟨x, hx, p, hp, hover, hahead, hmem, hpart, ?_, ?_⟩
        · cases further with
          | declared _ => exact absurd rfl hpa
          | inherited _ hsilent _ _ => exact hsilent
        · rw [hlayer, further.declares hmerges hp hlayer]

end

/-- When the value of a block's entry is one that stands. The entry goes back to a declaration,
and that is overridden within the type exactly if somewhere in the chain a copy of the overridden
value stands in front of an override it knows nothing of. Then the type shows an overridden value,
unless a further declaration that does stand happens to have the same one. -/
theorem Hierarchy.entry_stands_iff {cs : List Compilation} (h : Hierarchy cs) {block : String}
    (hmerges : MergesAll cs block) {d : Compilation} (hd : d ∈ cs) {merged : EffectiveBlock}
    (hblock : d.compiled.own.block? block = some merged) {key : String} {v : Value}
    (hentry : merged.entries.get? key = some v) :
    ∃ a ∈ cs, Source cs block key d a ∧ a.compiled.own ∈ d.compiled.layers ∧
      a.declares? block key = some v ∧
      ((∀ x ∈ cs, ¬ Overrides block key d a x) ↔
        ∀ x ∈ cs, ∀ p ∈ cs, Overrides block key d a x → ¬ StaleCopy block key d a x p) ∧
      ((∃ b ∈ cs, b.compiled.own ∈ d.compiled.layers ∧ b.declares? block key = some v ∧
          ∀ x ∈ cs, ¬ Overrides block key d b x) ↔
        (∀ x ∈ cs, ∀ p ∈ cs, Overrides block key d a x → ¬ StaleCopy block key d a x p) ∨
        ∃ b ∈ cs, b ≠ a ∧ b.compiled.own ∈ d.compiled.layers ∧ b.declares? block key = some v ∧
          ∀ x ∈ cs, ¬ Overrides block key d b x) := by
  have hentry' : d.compiled.own.entry? block key = some v := by
    rw [Layer.entry?, hblock]
    exact hentry
  obtain ⟨a, hsource⟩ := exists_source h hmerges hd hentry'
  obtain ⟨ha, hmem⟩ := hsource.mem h hd
  have hdeclares := hsource.declares hmerges hd hentry'
  have hstands : (∀ x ∈ cs, ¬ Overrides block key d a x) ↔
      ∀ x ∈ cs, ∀ p ∈ cs, Overrides block key d a x → ¬ StaleCopy block key d a x p := by
    constructor
    · intro hno x hx _ _ hover
      exact absurd hover (hno x hx)
    · intro hno x hx hover
      obtain ⟨y, hy, p, hp, hover, hcopy⟩ :=
        hsource.staleCopy h hmerges hd hentry' ⟨x, hx, hover⟩
      exact hno y hy p hp hover hcopy
  refine ⟨a, ha, hsource, hmem, hdeclares, hstands, ?_⟩
  constructor
  · rintro ⟨b, hb, hbd, hbv, hno⟩
    by_cases hba : b = a
    · rw [hba] at hno
      exact .inl (hstands.mp hno)
    · exact .inr ⟨b, hb, hba, hbd, hbv, hno⟩
  · rintro (hno | ⟨b, hb, _, hbd, hbv, hno⟩)
    · exact ⟨a, ha, hmem, hdeclares, hstands.mpr hno⟩
    · exact ⟨b, hb, hbd, hbv, hno⟩

/-! ## The diamond

The left side declares the block of the root with a key of its own and so copies the root's entry;
the right side overrides that entry. The copy comes first. -/

namespace Diamond

theorem mergesAll : MergesAll [both, right, left, root] "Components" := by
  intro c hc b hb
  have hmem := (Compilation.declaration?_eq_some hb).1
  simp only [List.mem_cons, List.not_mem_nil, or_false] at hc
  rcases hc with rfl | rfl | rfl | rfl <;>
    simp only [both, right, left, root, Compilation.ofOk, List.mem_singleton] at hmem <;>
    rw [hmem] <;> exact ⟨rfl, rfl⟩

/-- The entry of the last type, in which the override of the right side is lost. -/
theorem exists_entry_both :
    ∃ merged v, both.compiled.own.block? "Components" = some merged ∧
      merged.entries.get? "x" = some v ∧ v.int? = some 1 := by
  have hint : (both.compiled.own.entry? "Components" "x").bind Value.int? = some 1 := by
    decide +kernel
  obtain ⟨v, hentry, hv⟩ := Option.bind_eq_some_iff.mp hint
  obtain ⟨merged, hblock, hget⟩ := Option.bind_eq_some_iff.mp hentry
  exact ⟨merged, v, hblock, hget, hv⟩

/-- Only the root declares that value. -/
theorem eq_root_of_declares {a : Compilation} (ha : a ∈ [both, right, left, root]) {v : Value}
    (hv : v.int? = some 1) (hdeclares : a.declares? "Components" "x" = some v) : a = root := by
  have hint : (a.declares? "Components" "x").bind Value.int? = some 1 := by
    rw [hdeclares]
    exact hv
  simp only [List.mem_cons, List.not_mem_nil, or_false] at ha
  rcases ha with rfl | rfl | rfl | rfl
  · exact absurd hint (by decide +kernel)
  · exact absurd hint (by decide +kernel)
  · exact absurd hint (by decide +kernel)
  · rfl

theorem overrides_right : Overrides "Components" "x" both root right where
  part := List.mem_cons_of_mem _ right_mem_both
  inherits := root_mem_right
  declares := by decide +kernel

/-- The source of the entry is the root; the copy and the override are found in the chain. -/
theorem entry_stands_iff_both :
    Source [both, right, left, root] "Components" "x" both root ∧
      ∃ x ∈ [both, right, left, root], ∃ p ∈ [both, right, left, root],
        Overrides "Components" "x" both root x ∧ StaleCopy "Components" "x" both root x p := by
  obtain ⟨merged, v, hblock, hentry, hv⟩ := exists_entry_both
  have hboth : both ∈ [both, right, left, root] := by simp
  obtain ⟨a, ha, hsource, _, hdeclares, hstands, _⟩ :=
    hierarchy.entry_stands_iff mergesAll hboth hblock hentry
  obtain rfl := eq_root_of_declares ha hv hdeclares
  refine ⟨hsource, ?_⟩
  apply Classical.byContradiction
  intro hnone
  refine hstands.mpr ?_ right (by simp) overrides_right
  intro x hx p hp hover hcopy
  exact hnone ⟨x, hx, p, hp, hover, hcopy⟩

/-- An entry can come back that a part of the type has overridden. -/
theorem overridden_entry_returns :
    ¬ ∀ cs, Hierarchy cs → ∀ block, MergesAll cs block → ∀ d ∈ cs, ∀ merged key v,
      d.compiled.own.block? block = some merged → merged.entries.get? key = some v →
      ∃ a ∈ cs, a.compiled.own ∈ d.compiled.layers ∧ a.declares? block key = some v ∧
        ∀ x ∈ cs, ¬ Overrides block key d a x := by
  intro hclaim
  obtain ⟨merged, v, hblock, hentry, hv⟩ := exists_entry_both
  obtain ⟨a, ha, _, hdeclares, hno⟩ :=
    hclaim _ hierarchy "Components" mergesAll both (by simp) merged "x" v hblock hentry
  obtain rfl := eq_root_of_declares ha hv hdeclares
  exact hno right (by simp) overrides_right

end Diamond

end AppAssembly
