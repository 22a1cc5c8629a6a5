import AppAssembly.Proofs.Bookkeeping
import AppAssembly.Proofs.Inheritance
import AppAssembly.Proofs.Setting
import Mathlib.Data.List.Perm.Subperm

/-!
# Nulling out what is inherited

A block of attributes, checkers or methods can null out the entries it inherits. It goes by the
keys that the nearest blocks of the direct bases show. A type that merges several bases without
declaring the block shows one of them only, so keys of the others are missed; where every such type
declares the block, none is (`Hierarchy.shows_of_declares`). What is nulled out refuses to be
called on every instance (`Reachable.call_refused`), however native code is run.
-/

namespace AppAssembly

open Compile

/-! ## Keys that bases show -/

/-- The nearest block of a type has an entry under the key. -/
def CompiledType.Shows (t : CompiledType) (name key : String) : Prop :=
  ∃ merged, t.block? name = some merged ∧ (merged.entries.get? key).isSome

theorem CompiledType.shows_iff {t : CompiledType} {name key : String} :
    t.Shows name key ↔ ((t.block? name).bind fun merged => merged.entries.get? key).isSome := by
  unfold Shows
  rw [Option.isSome_bind, Option.any_eq_true]

instance (t : CompiledType) (name key : String) : Decidable (t.Shows name key) :=
  decidable_of_iff _ CompiledType.shows_iff.symm

/-- A key is inherited exactly if a direct base shows it: whoever shows it is an ancestor too, so
there is a value for it. -/
theorem inheritedBlock_isSome_iff {bases : List CompiledType} {ancestors : List Layer}
    {name key : String} (hsub : ∀ base ∈ bases, base.layers.Sublist ancestors) :
    ((inheritedBlock bases ancestors name).entries.get? key).isSome ↔
      ∃ base ∈ bases, base.Shows name key := by
  have hkeys : key ∈ firstBy id ((bases.filterMap fun base => base.block? name).flatMap
      fun block => block.entries.keys) ↔ ∃ base ∈ bases, base.Shows name key := by
    rw [mem_firstBy_id]
    simp only [List.mem_flatMap, List.mem_filterMap, ← Entries.get?_isSome_iff]
    constructor
    · rintro ⟨merged, ⟨base, hbase, hmerged⟩, hkey⟩
      exact ⟨base, hbase, merged, hmerged, hkey⟩
    · rintro ⟨base, hbase, merged, hmerged, hkey⟩
      exact ⟨merged, ⟨base, hbase, hmerged⟩, hkey⟩
  unfold inheritedBlock
  rw [Entries.get?_filterMap]
  by_cases hshown : ∃ base ∈ bases, base.Shows name key
  · rw [if_pos (hkeys.mpr hshown)]
    refine ⟨fun _ => hshown, fun _ => ?_⟩
    obtain ⟨base, hbase, merged, hmerged, hkey⟩ := hshown
    obtain ⟨layer, hlayer, hblock⟩ := List.exists_of_findSome?_eq_some hmerged
    rw [List.findSome?_isSome_iff]
    refine ⟨merged, ?_, hkey⟩
    exact List.mem_filterMap.mpr ⟨layer, (hsub base hbase).mem hlayer, hblock⟩
  · rw [if_neg (mt hkeys.mp hshown)]
    simp [hshown]

/-- The ancestors of a type with one base are the layers of the base. -/
theorem Hierarchy.ancestors_of_single {cs : List Compilation} (h : Hierarchy cs)
    {c : Compilation} (hc : c ∈ cs) {base : CompiledType} (hb : c.bases = [base]) :
    c.compiled.ancestors = base.layers := by
  obtain ⟨hmem, hbases⟩ := h.ancestors_spec hc
  simp only [hb, List.mem_singleton, exists_eq_left] at hmem
  have hsub : base.layers.Sublist c.compiled.ancestors := hbases base (by simp [hb])
  have hperm := List.subperm_of_subset (h.nodup_ancestors hc)
    fun layer hlayer => (hmem layer).mp hlayer
  exact (hsub.eq_of_length_le hperm.length_le).symm

/-- Attributes, checkers and methods keep what they inherit, with or without nulls. -/
theorem Block.keepsInherited_of_putsEntries {handlers : HandlerRegistry} {b : Block}
    (hbuiltIn : handlers.IsBuiltInFor b) (hputs : b.kind.putsEntries = true) :
    b.keepsInherited handlers = true := by
  unfold Block.keepsInherited
  rw [hbuiltIn]
  cases hkind : b.kind with
  | attrs | checkers | methods => rfl
  | _ =>
      rw [hkind] at hputs
      cases hputs

theorem Block.putsEntries_congr {b : Block} {name : String}
    (hname : Text.lowercase b.identity = Text.lowercase name)
    (hputs : (BlockKind.ofName name).putsEntries = true) : b.kind.putsEntries = true := by
  unfold kind BlockKind.ofName
  rw [hname]
  exact hputs

section

variable {cs : List Compilation} {name key : String}

/-- A type that declares the block shows what it declares and what its bases show. -/
theorem Hierarchy.shows_of_declaration (h : Hierarchy cs)
    (hputs : (BlockKind.ofName name).putsEntries = true) {x : Compilation} (hx : x ∈ cs)
    {b : Block} (hdeclared : x.declaration? name = some b)
    (hbuiltIn : x.handlers.IsBuiltInFor b)
    (hkey : (x.declares? name key).isSome ∨ ∃ base ∈ x.bases, base.Shows name key) :
    x.compiled.Shows name key := by
  obtain ⟨_, hname⟩ := Compilation.declaration?_eq_some hdeclared
  obtain ⟨merged, hblock, hentries⟩ := Compilation.block?_of_declaration? hdeclared
  refine ⟨merged, ?_, ?_⟩
  · unfold CompiledType.block? CompiledType.layers
    rw [List.findSome?_cons, hblock]
  · rw [hentries, Compile.Site.mergedEntries, if_pos (Block.keepsInherited_of_putsEntries hbuiltIn
      (Block.putsEntries_congr hname hputs)), Entries.get?_overlay, Option.isSome_or,
      Bool.or_eq_true]
    rcases hkey with hown | hshown
    · left
      simpa [Compilation.declares?, hdeclared] using hown
    · right
      rw [inheritedBlock_congr hname]
      exact (inheritedBlock_isSome_iff (h.ancestors_spec hx).2).mpr hshown

/-- A type with one base that does not declare the block shows what the base shows. -/
theorem Hierarchy.shows_of_single (h : Hierarchy cs) {x : Compilation} (hx : x ∈ cs)
    (hdeclared : x.declaration? name = none) {base : CompiledType} (hbase : x.bases = [base])
    (hshown : base.Shows name key) : x.compiled.Shows name key := by
  obtain ⟨merged, hmerged, hkey⟩ := hshown
  refine ⟨merged, ?_, hkey⟩
  unfold CompiledType.block? CompiledType.layers
  rw [List.findSome?_cons, Compilation.block?_of_not_declared hdeclared,
    h.ancestors_of_single hx hbase]
  exact hmerged

/-- A declared entry is shown by every type that inherits it, if all types with several bases on
the way declare the block. The induction is on the number of layers. -/
theorem Hierarchy.shows_of_declares (h : Hierarchy cs)
    (hputs : (BlockKind.ofName name).putsEntries = true)
    (hbuiltIn : ∀ c ∈ cs, ∀ b, c.declaration? name = some b → c.handlers.IsBuiltInFor b)
    {a x : Compilation} (ha : a ∈ cs) (hx : x ∈ cs) (hax : a.compiled.own ∈ x.compiled.layers)
    (hdeclares : (a.declares? name key).isSome)
    (hmulti : ∀ y ∈ cs, y.compiled.own ∈ x.compiled.layers → 2 ≤ y.bases.length →
      (y.declaration? name).isSome) :
    x.compiled.Shows name key := by
  induction hn : x.compiled.layers.length using Nat.strongRecOn generalizing x with
  | ind n ih =>
      obtain ⟨hmem, hbases⟩ := h.ancestors_spec hx
      -- a base that has the declaring type among its layers shows the entry
      have hbase : a.compiled.own ∈ x.compiled.ancestors →
          ∃ base ∈ x.bases, base.Shows name key := by
        intro hancestor
        obtain ⟨base, hb, hlayer⟩ := (hmem _).mp hancestor
        obtain ⟨y, hy, rfl⟩ := h.base_mem hx hb
        have hsub := hbases _ hb
        have hlt : y.compiled.layers.length < n := by
          have hle := hsub.length_le
          have hlayers : x.compiled.layers.length = x.compiled.ancestors.length + 1 := rfl
          omega
        refine ⟨_, hb, ih _ hlt hy hlayer (fun z hz hzy => ?_) rfl⟩
        exact hmulti z hz (List.mem_cons_of_mem _ (hsub.mem hzy))
      cases hdeclared : x.declaration? name with
      | some b =>
          refine h.shows_of_declaration hputs hx hdeclared (hbuiltIn x hx b hdeclared) ?_
          rcases List.mem_cons.mp hax with hown | hancestor
          · obtain rfl := h.eq_of_id ha hx (congrArg Layer.id hown)
            exact .inl hdeclares
          · exact .inr (hbase hancestor)
      | none =>
          have hancestor : a.compiled.own ∈ x.compiled.ancestors := by
            rcases List.mem_cons.mp hax with hown | hancestor
            · obtain rfl := h.eq_of_id ha hx (congrArg Layer.id hown)
              simp [Compilation.declares?, hdeclared] at hdeclares
            · exact hancestor
          obtain ⟨base, hb, hshown⟩ := hbase hancestor
          have hlength : ¬ 2 ≤ x.bases.length := by
            intro htwo
            have := hmulti x hx List.mem_cons_self htwo
            rw [hdeclared] at this
            cases this
          have hone : x.bases.length = 1 := by
            have := List.length_pos_of_mem hb
            omega
          obtain ⟨only, hbase⟩ := List.length_eq_one_iff.mp hone
          rw [hbase, List.mem_singleton] at hb
          exact h.shows_of_single hx hdeclared hbase (hb ▸ hshown)

/-! ## What becomes of a null -/

variable {c : Compilation} {b : Block}

/-- An entry of a block, declared or nulled out, is the member under its key. -/
theorem Compilation.member?_of_entry (hb : b ∈ c.spec.blocks)
    (hbuiltIn : c.handlers.IsBuiltInFor b) (hputs : b.kind.putsEntries = true) {v : Value}
    (hentry : (c.site.declaration b).entriesOverNulls.get? key = some v) :
    c.compiled.own.member? key =
      some ⟨(c.site.declaration b).content key v, b.origin c.spec.name⟩ := by
  refine member?_of_product hbuiltIn hb ?_
  have hputs' : (c.site.declaration b).block.kind.putsEntries = true := hputs
  rw [Declaration.products_of_putsEntries hputs']
  exact List.mem_map.mpr ⟨_, Entries.mem_of_get?_eq_some hentry, rfl⟩

theorem Compilation.member?_of_declares (hbuiltIn : ∀ b, c.declaration? name = some b →
      c.handlers.IsBuiltInFor b) (hputs : (BlockKind.ofName name).putsEntries = true)
    (hdeclares : (c.declares? name key).isSome) : (c.compiled.own.member? key).isSome := by
  cases hdeclared : c.declaration? name with
  | none => simp [Compilation.declares?, hdeclared] at hdeclares
  | some b =>
      obtain ⟨hb, hname⟩ := Compilation.declaration?_eq_some hdeclared
      obtain ⟨v, hv⟩ := Option.isSome_iff_exists.mp hdeclares
      have hentry : (c.site.declaration b).entriesOverNulls.get? key = some v := by
        unfold Declaration.entriesOverNulls
        rw [Entries.get?_overlay]
        have hv : (Entries.ofPairs b.entries).get? key = some v := by
          simpa [Compilation.declares?, hdeclared] using hv
        show ((Entries.ofPairs b.entries).get? key).or _ = some v
        rw [hv]
        rfl
      rw [Compilation.member?_of_entry hb (hbuiltIn b hdeclared)
        (Block.putsEntries_congr hname hputs) hentry]
      rfl

/-- An inherited entry that the block does not declare itself is nulled out. -/
theorem Compile.Site.get?_entriesOverNulls {site : Site} (hnull : b.nullifiesInherited = true)
    (hshown : ((inheritedBlock site.bases site.ancestors b.identity).entries.get? key).isSome)
    (hkey : key ∉ b.entries.keys) :
    (site.declaration b).entriesOverNulls.get? key = some .null := by
  unfold Declaration.entriesOverNulls Declaration.nulls
  show Entries.get? (Entries.overlay (if b.nullifiesInherited = true then _ else []) b.entries) key
    = some .null
  rw [if_pos hnull, Entries.get?_overlay_of_not_mem hkey, Entries.get?_mapValues]
  obtain ⟨v, hv⟩ := Option.isSome_iff_exists.mp hshown
  show Option.map _ ((inheritedBlock site.bases site.ancestors b.identity).entries.get? key) = _
  rw [hv]
  rfl

/-- What becomes the member of an inherited entry that the block nulls out. -/
theorem Compilation.member?_of_nulled (hb : b ∈ c.spec.blocks)
    (hbuiltIn : c.handlers.IsBuiltInFor b) (hputs : b.kind.putsEntries = true)
    (hnull : b.nullifiesInherited = true)
    (hshown : ((inheritedBlock c.bases c.compiled.ancestors b.identity).entries.get? key).isSome)
    (hkey : key ∉ b.entries.keys) :
    c.compiled.own.member? key =
      some ⟨(c.site.declaration b).nullContent key, b.origin c.spec.name⟩ :=
  member?_of_entry hb hbuiltIn hputs (Compile.Site.get?_entriesOverNulls hnull hshown hkey)

/-- A null refuses to be called, unless everything under the key is a null already. -/
theorem Declaration.nullContent_cases (d : Declaration) (key : String)
    (hentry : (d.inherited.entries.get? key).isSome)
    (hmember : (CompiledType.memberAlong d.ancestors key).isSome) :
    d.nullContent key = .value (.callable (.notImplemented d.layer key d.origin)) ∨
      (d.nullContent key = .value .null ∧ d.inherited.entries.get? key = some .null ∧
        ∃ layer origin, CompiledType.memberAlong d.ancestors key =
          some (layer, ⟨.value .null, origin⟩)) := by
  cases hoverrides : d.overridesInherited key with
  | true =>
      left
      rw [nullContent, if_pos hoverrides]
  | false =>
      right
      obtain ⟨v, hv⟩ := Option.isSome_iff_exists.mp hentry
      obtain ⟨⟨layer, content, origin⟩, hfound⟩ := Option.isSome_iff_exists.mp hmember
      unfold overridesInherited at hoverrides
      rw [hv, hfound] at hoverrides
      simp only [Bool.or_eq_false_iff, Bool.not_eq_false'] at hoverrides
      obtain ⟨hnull, hplain⟩ := hoverrides
      have hvnull : v = .null := by
        cases v with
        | null => rfl
        | _ => cases hnull
      have hcontent : content = .value .null := by
        split at hplain
        · rename_i heq
          cases heq
          rfl
        · cases hplain
        · rename_i heq
          cases heq
      refine ⟨by simp [nullContent, overridesInherited, hv, hfound, hvnull, hcontent, Value.isNull],
        hvnull ▸ hv, layer, origin, hcontent ▸ hfound⟩

/-! ## Calling what was nulled out -/

theorem Callable.call_notImplemented {eval : Evaluator} (heval : eval.Raises) (layer : Nat)
    (origin : Origin) (args : List Value) (i : Instance) :
    (Callable.notImplemented layer key origin).call eval args i =
      (.error (.notImplemented key origin), i) :=
  congrFun (heval (.notImplemented key origin) args) i

end

namespace Instance

variable {i : Instance} {key : String} {layer : Layer} {v : Value} {origin : Origin}

/-- A name that was not set has no value of its own, unless it is one that is built. -/
theorem Reachable.unset (hi : Reachable i)
    (hmember : i.compiled.member? key = some (layer, ⟨.value v, origin⟩))
    (hunset : ∀ w, (key, w) ∉ i.written) : i.attrs.get? key = none := by
  induction hi with
  | new => rfl
  | @move i j _ hmove ih =>
      rcases hmove.effect with hj | ⟨other, w, rfl⟩ | hj
      · rw [hj.rest] at hmember hunset ⊢
        exact ih hmember hunset
      · rcases set_cases other w i with ⟨d, c, _, hset⟩ | ⟨_, _, hset⟩ | ⟨e, hset⟩
        · rw [hset] at hmember hunset ⊢
          exact ih hmember fun u hu => hunset u (List.mem_append_left _ hu)
        · rw [hset] at hmember hunset ⊢
          have hne : other ≠ key := by
            rintro rfl
            exact hunset w (List.mem_append_right _ (List.mem_singleton.mpr rfl))
          have hbefore := ih hmember fun u hu => hunset u (List.mem_append_left _ hu)
          exact (Entries.get?_insert_of_ne _ _ hne).trans hbefore
        · rw [hset] at hmember hunset ⊢
          exact ih hmember hunset
      · rw [hj.compiled] at hmember
        rw [hj.written] at hunset
        have hawaits : i.awaits key = false := by
          unfold awaits
          rw [hmember]
        rw [hj.attrs key hawaits]
        exact ih hmember hunset

/-- As long as it is not set, a name with a value on the type has this value. -/
theorem Reachable.get_unset (hi : Reachable i) (hplain : isPlain key = true)
    (hmember : i.compiled.member? key = some (layer, ⟨.value v, origin⟩))
    (hunset : ∀ w, (key, w) ∉ i.written) : Instance.get key i = (.ok v, i) := by
  have hcell : i.cells.get? key = none := by
    cases hcell : i.cells.get? key with
    | none => rfl
    | some entry =>
        obtain ⟨_, _, own, _, hdelegate⟩ := hi.exposed key entry.1 entry.2 hcell
        rw [hmember] at hdelegate
        cases hdelegate
  refine get_of_lookup hplain ?_
  rw [lookup_bare hcell, hi.unset hmember hunset, hmember]
  rfl

/-- What was nulled out refuses to be called as long as nothing was set in its place. -/
theorem Reachable.call_refused {eval : Evaluator} (heval : eval.Raises) (hi : Reachable i)
    (hplain : isPlain key = true) {n : Nat} {declared : Origin} (hmember : i.compiled.member? key =
      some (layer, ⟨.value (.callable (.notImplemented n key declared)), origin⟩))
    (hunset : ∀ w, (key, w) ∉ i.written) (args : List Value) :
    Instance.call eval key args i = (.error (.notImplemented key declared), i) := by
  unfold Instance.call
  rw [Act.bind_apply, hi.get_unset hplain hmember hunset]
  exact Callable.call_notImplemented heval n declared args i

end Instance

/-! ## What is hidden -/

theorem CompiledType.member?_of_own {t : CompiledType} {key : String} {member : Member}
    (h : t.own.member? key = some member) : t.member? key = some (t.own, member) := by
  unfold CompiledType.member? memberAlong layers
  rw [List.findSome?_cons, h]
  rfl

/-- The winning member refuses to be called, itself and under its name on every instance on which
nothing was set in its place. -/
structure Compilation.Refuses (c : Compilation) (key : String) (origin : Origin) : Prop where
  member : c.compiled.member? key = some (c.compiled.own,
    ⟨.value (.callable (.notImplemented c.layer key origin)), origin⟩)
  refuses : ∀ eval : Evaluator, eval.Raises → ∀ (i : Instance) (args : List Value),
    (Value.callable (.notImplemented c.layer key origin)).invoke eval args i =
      (.error (.notImplemented key origin), i)
  calls : ∀ eval : Evaluator, eval.Raises → ∀ i : Instance, Instance.Reachable i →
    i.compiled = c.compiled → Instance.isPlain key = true → (∀ v, (key, v) ∉ i.written) → ∀ args,
      Instance.call eval key args i = (.error (.notImplemented key origin), i)

/-- Nothing but plain nulls: the entry that is inherited, the member that is inherited, and so the
winning member too. -/
structure Compilation.NullAlready (c : Compilation) (name key : String) (origin : Origin) :
    Prop where
  entry : (inheritedBlock c.bases c.compiled.ancestors name).entries.get? key = some .null
  ancestor : ∃ layer origin, CompiledType.memberAlong c.compiled.ancestors key =
    some (layer, ⟨.value .null, origin⟩)
  member : c.compiled.member? key = some (c.compiled.own, ⟨.value .null, origin⟩)

theorem Compilation.refuses_of_own {c : Compilation} {key : String} {origin : Origin}
    (h : c.compiled.own.member? key =
      some ⟨.value (.callable (.notImplemented c.layer key origin)), origin⟩) :
    c.Refuses key origin where
  member := CompiledType.member?_of_own h
  refuses _ heval i args := Callable.call_notImplemented heval c.layer origin args i
  calls _ heval i hi hcompiled hplain hunset args := by
    have hmember := CompiledType.member?_of_own h
    rw [← hcompiled] at hmember
    exact hi.call_refused heval hplain hmember hunset args

/-- What a block hides by nulling out what it inherits. Of the keys that an ancestor declares in
its block of the name, those that a direct base shows are hidden: the type declares the key itself,
or its member refuses to be called, or all there was is a plain null and stays one. Every key is
shown if all ancestors with several bases declare the block. -/
theorem Hierarchy.nullified_hidden {cs : List Compilation} (h : Hierarchy cs) {name key : String}
    (hputs : (BlockKind.ofName name).putsEntries = true)
    (hbuiltIn : ∀ c ∈ cs, ∀ b, c.declaration? name = some b → c.handlers.IsBuiltInFor b)
    {c : Compilation} (hc : c ∈ cs) {b : Block} (hb : c.declaration? name = some b)
    (hnull : b.nullifiesInherited = true) {a : Compilation} (ha : a ∈ cs)
    (hac : a.compiled.own ∈ c.compiled.ancestors) (hdeclares : (a.declares? name key).isSome) :
    ((∀ x ∈ cs, x.compiled.own ∈ c.compiled.ancestors → 2 ≤ x.bases.length →
      (x.declaration? name).isSome) → ∃ base ∈ c.bases, base.Shows name key) ∧
    ((∃ base ∈ c.bases, base.Shows name key) → key ∈ b.entries.keys ∨
      c.Refuses key (b.origin c.spec.name) ∨ c.NullAlready name key (b.origin c.spec.name)) := by
  obtain ⟨hmem, hbases⟩ := h.ancestors_spec hc
  obtain ⟨hdeclared, hname⟩ := Compilation.declaration?_eq_some hb
  constructor
  · intro hmulti
    obtain ⟨base, hbase, hlayer⟩ := (hmem _).mp hac
    obtain ⟨y, hy, rfl⟩ := h.base_mem hc hbase
    refine ⟨_, hbase, h.shows_of_declares hputs hbuiltIn ha hy hlayer hdeclares ?_⟩
    exact fun x hx hxy => hmulti x hx ((hbases _ hbase).mem hxy)
  · intro hshown
    by_cases hkey : key ∈ b.entries.keys
    · exact .inl hkey
    right
    have hinherited := (inheritedBlock_isSome_iff hbases).mpr hshown
    rw [← inheritedBlock_congr hname] at hinherited
    have hown := Compilation.member?_of_nulled hdeclared (hbuiltIn c hc b hb)
      (Block.putsEntries_congr hname hputs) hnull hinherited hkey
    -- the ancestor that declares the key has a member under it
    have hmember : (CompiledType.memberAlong c.compiled.ancestors key).isSome := by
      unfold CompiledType.memberAlong
      rw [List.findSome?_isSome_iff]
      refine ⟨a.compiled.own, hac, ?_⟩
      rw [Option.isSome_map]
      exact Compilation.member?_of_declares (hbuiltIn a ha) hputs hdeclares
    rcases Declaration.nullContent_cases (c.site.declaration b) key hinherited hmember with
      hrefuses | ⟨hplain, hentry, hancestor⟩
    · left
      refine Compilation.refuses_of_own ?_
      rw [hown, hrefuses]
      rfl
    · right
      rw [hplain] at hown
      refine ⟨?_, hancestor, CompiledType.member?_of_own hown⟩
      rw [← inheritedBlock_congr hname]
      exact hentry

/-! ## Entries that are missed

Two types with an attribute each are merged by a type without a block of its own, and a last type
nulls out what it inherits. Only the first of the two attributes is shown to it, and the callable
under the second one still answers. -/

namespace Merged

/-- A block that nulls out what it inherits and declares nothing. -/
def nulling : Block :=
  { identity := "Attrs", nullifyInherited := some true }

def left : Compilation :=
  .ofOk .builtIn 0
    { name := "Left", blocks := [{ identity := "Attrs", entries := [("x", .int 1)] }] }
    [] (by decide +kernel)

def callable : Value :=
  .callable ⟨.given 0, "y", [], false, none, .giveArgs⟩

def right : Compilation :=
  .ofOk .builtIn 1
    { name := "Right", blocks := [{ identity := "Attrs", entries := [("y", callable)] }] }
    [] (by decide +kernel)

def middle : Compilation :=
  .ofOk .builtIn 2 { name := "Middle" } [left.compiled, right.compiled] (by decide +kernel)

def last : Compilation :=
  .ofOk .builtIn 3 { name := "Last", blocks := [nulling] } [middle.compiled] (by decide +kernel)

theorem hierarchy : Hierarchy [last, middle, right, left] := by
  refine .compile (.compile (.compile (.compile .empty ?_ ?_) ?_ ?_) ?_ ?_) ?_ ?_
  · simp
  · simp [left, Compilation.ofOk]
  · simp [left, right, Compilation.ofOk]
  · simp [right, Compilation.ofOk]
  · simp [left, right, middle, Compilation.ofOk]
  · simp [middle, Compilation.ofOk]
  · simp [left, right, middle, last, Compilation.ofOk]
  · simp [last, Compilation.ofOk]

theorem builtIn : ∀ c ∈ [last, middle, right, left], c.handlers = .builtIn := by
  simp only [List.mem_cons, List.not_mem_nil, or_false, forall_eq_or_imp, forall_eq]
  exact ⟨rfl, rfl, rfl, rfl⟩

theorem declaration_last : last.declaration? "attrs" = some nulling := by
  rfl

theorem mem_ancestors_last : left.compiled.own ∈ last.compiled.ancestors ∧
    right.compiled.own ∈ last.compiled.ancestors := by
  have hlast := (hierarchy.ancestors_spec (c := last) (by simp)).2 middle.compiled
    List.mem_cons_self
  have hmiddle := (hierarchy.ancestors_spec (c := middle) (by simp)).2
  constructor
  · have hleft := (hmiddle left.compiled List.mem_cons_self).mem List.mem_cons_self
    exact hlast.mem (List.mem_cons_of_mem _ hleft)
  · have hright := (hmiddle right.compiled (List.mem_cons_of_mem _ List.mem_cons_self)).mem
      List.mem_cons_self
    exact hlast.mem (List.mem_cons_of_mem _ hright)

theorem nullified_hidden_last : last.Refuses "x" ⟨"Last.Attrs", none⟩ := by
  have hdeclares : (left.declares? "attrs" "x").isSome := by decide +kernel
  have hleft : left ∈ [last, middle, right, left] := by simp
  obtain ⟨_, hhidden⟩ := hierarchy.nullified_hidden (by decide +kernel)
    (fun c hc b _ => Compilation.isBuiltInFor (builtIn c hc) b) List.mem_cons_self
    declaration_last rfl hleft mem_ancestors_last.1 hdeclares
  have hshown : middle.compiled.Shows "attrs" "x" := by decide +kernel
  rcases hhidden ⟨middle.compiled, List.mem_cons_self, hshown⟩ with hown | hrefuses | hnull
  · cases hown
  · exact hrefuses
  · have hentry : ((inheritedBlock last.bases last.compiled.ancestors "attrs").entries.get? "x").map
        Value.isNull = some false := by
      decide +kernel
    rw [hnull.entry] at hentry
    cases hentry

end Merged

/-! ## Nulls that stay plain

An attribute is nulled out by a block and then declared as a null by hand. Nothing is left that
could refuse to be called. -/

namespace Plain

def root : Compilation :=
  .ofOk .builtIn 0
    { name := "Root", blocks := [{ identity := "Attrs", entries := [("x", .int 1)] }] }
    [] (by decide +kernel)

def nulled : Compilation :=
  .ofOk .builtIn 1
    { name := "Nulled", blocks := [{ identity := "Attrs", entries := [("x", .null)] }] }
    [root.compiled] (by decide +kernel)

def byHand : Compilation :=
  .ofOk .builtIn 2 { name := "ByHand", members := [("x", .null)] } [nulled.compiled]
    (by decide +kernel)

def last : Compilation :=
  .ofOk .builtIn 3 { name := "Last", blocks := [Merged.nulling] } [byHand.compiled]
    (by decide +kernel)

theorem hierarchy : Hierarchy [last, byHand, nulled, root] := by
  refine .compile (.compile (.compile (.compile .empty ?_ ?_) ?_ ?_) ?_ ?_) ?_ ?_
  · simp
  · simp [root, Compilation.ofOk]
  · simp [root, nulled, Compilation.ofOk]
  · simp [nulled, Compilation.ofOk]
  · simp [root, nulled, byHand, Compilation.ofOk]
  · simp [byHand, Compilation.ofOk]
  · simp [root, nulled, byHand, last, Compilation.ofOk]
  · simp [last, Compilation.ofOk]

theorem builtIn : ∀ c ∈ [last, byHand, nulled, root], c.handlers = .builtIn := by
  simp only [List.mem_cons, List.not_mem_nil, or_false, forall_eq_or_imp, forall_eq]
  exact ⟨rfl, rfl, rfl, rfl⟩

theorem root_mem_last : root.compiled.own ∈ last.compiled.ancestors := by
  have hlast := hierarchy.base_sublist (c := last) (by simp) List.mem_cons_self
  have hbyHand := hierarchy.base_sublist (c := byHand) (by simp) List.mem_cons_self
  have hnulled := hierarchy.base_sublist (c := nulled) (by simp) List.mem_cons_self
  exact hlast.mem (List.mem_cons_of_mem _ (hbyHand.mem (List.mem_cons_of_mem _
    (hnulled.mem List.mem_cons_self))))

/-- The null that the last type puts over the one by hand hides nothing. -/
theorem member?_last : last.compiled.member? "x" =
    some (last.compiled.own, ⟨.value .null, Merged.nulling.origin "Last"⟩) := by
  have hplain : (last.site.declaration Merged.nulling).overridesInherited "x" = false := by
    decide +kernel
  refine CompiledType.member?_of_own ?_
  rw [Compilation.member?_of_nulled List.mem_cons_self (Compilation.isBuiltInFor rfl _)
    (by decide +kernel) rfl (by decide +kernel) (by decide), Declaration.nullContent, hplain]
  rfl

end Plain

/-- Nulling out does not hide every entry: neither those that no base shows, nor those that are
plain nulls already. -/
theorem entries_escape :
    (¬ ∀ cs, Hierarchy cs → (∀ c ∈ cs, c.handlers = .builtIn) → ∀ name key,
      (BlockKind.ofName name).putsEntries = true → ∀ c ∈ cs, ∀ b, c.declaration? name = some b →
      b.nullifiesInherited = true → ∀ a ∈ cs, a.compiled.own ∈ c.compiled.ancestors →
      ∀ v, a.declares? name key = some v → v.isNull = false →
        key ∈ b.entries.keys ∨ ∃ origin, c.Refuses key origin) ∧
    ¬ ∀ cs, Hierarchy cs → (∀ c ∈ cs, c.handlers = .builtIn) → ∀ name key,
      (BlockKind.ofName name).putsEntries = true → ∀ c ∈ cs, ∀ b, c.declaration? name = some b →
      b.nullifiesInherited = true → ∀ a ∈ cs, a.compiled.own ∈ c.compiled.ancestors →
      ∀ v, a.declares? name key = some v → v.isNull = false →
      (∃ base ∈ c.bases, base.Shows name key) →
        key ∈ b.entries.keys ∨ ∃ origin, c.Refuses key origin := by
  constructor
  · intro hclaim
    have hdeclares : (Merged.right.declares? "attrs" "y").map Value.isNull = some false := by
      decide +kernel
    obtain ⟨v, hv, hvnull⟩ := Option.map_eq_some_iff.mp hdeclares
    rcases hclaim _ Merged.hierarchy Merged.builtIn "attrs" "y" (by decide +kernel) Merged.last
      List.mem_cons_self _ Merged.declaration_last rfl Merged.right (by simp)
      Merged.mem_ancestors_last.2 v hv hvnull with hown | ⟨origin, hrefuses⟩
    · cases hown
    · have hid : (Merged.last.compiled.member? "y").map (fun entry => entry.1.id) = some 1 := by
        decide +kernel
      rw [hrefuses.member] at hid
      have hlast : Merged.last.compiled.own.id = 3 := Merged.last.own_id
      simp [hlast] at hid
  · intro hclaim
    have hdeclares : (Plain.root.declares? "attrs" "x").map Value.isNull = some false := by
      decide +kernel
    obtain ⟨v, hv, hvnull⟩ := Option.map_eq_some_iff.mp hdeclares
    have hshown : Plain.byHand.compiled.Shows "attrs" "x" := by decide +kernel
    rcases hclaim _ Plain.hierarchy Plain.builtIn "attrs" "x" (by decide +kernel) Plain.last
      List.mem_cons_self Merged.nulling rfl rfl Plain.root (by simp) Plain.root_mem_last v hv hvnull
      ⟨Plain.byHand.compiled, List.mem_cons_self, hshown⟩ with hown | ⟨origin, hrefuses⟩
    · cases hown
    · have hmember := hrefuses.member
      rw [Plain.member?_last] at hmember
      cases hmember

end AppAssembly
