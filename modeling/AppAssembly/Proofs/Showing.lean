import AppAssembly.Proofs.Nullifying

/-!
# What direct bases show

A block inherits the keys that the nearest blocks of the direct bases show. The values come from
somewhere else, the nearest ancestor whose block has the key. As a rule this is the same: a base
that shows the key shows that ancestor's entry, if it inherits from the ancestor at all. But all
bases that do may hide the key behind a nearer block, while another base shows it. Then the type
uncovers an entry that was left behind. This is the only way in which an entry gets to a type that
was cut off on every path to it (`Hierarchy.inherited_shown`).
-/

namespace AppAssembly

open Compile

/-- The value that the nearest block of a type has under a key. -/
def CompiledType.entry? (t : CompiledType) (name key : String) : Option Value :=
  (t.block? name).bind fun merged => merged.entries.get? key

namespace Compilation

/-- The value that a block of a type inherits under a key. -/
def inherited? (c : Compilation) (name key : String) : Option Value :=
  (inheritedBlock c.bases c.compiled.ancestors name).entries.get? key

/-- A block of the type has the entry as it was written. -/
def Writes (c : Compilation) (name key : String) (v : Value) : Prop :=
  ∃ b, c.declaration? name = some b ∧ (key, v) ∈ b.entries

/-- The nearest ancestor with an entry under the key has it hidden by every direct base that
inherits from it, but another direct base shows the key. -/
structure Uncovers (c : Compilation) (name key : String) (layer : Layer) : Prop where
  nearest : c.compiled.ancestors.find? (fun l => (l.entry? name key).isSome) = some layer
  shown : ∃ base ∈ c.bases, base.Shows name key
  hidden : ∀ base ∈ c.bases, layer ∈ base.layers → ¬ base.Shows name key

end Compilation

/-- An entry comes down to a type: a block of the type has it written, or it comes down to a direct
base, and no block of the type has another one for it or drops what it inherits. -/
inductive ComesDown (cs : List Compilation) (name key : String) (v : Value) :
    Compilation → Prop where
  | written {c : Compilation} (writes : c.Writes name key v) : ComesDown cs name key v c
  | handed {c p : Compilation} (made : p ∈ cs) (base : p.compiled ∈ c.bases)
      (further : ComesDown cs name key v p) (silent : ∀ w, ¬ c.Writes name key w)
      (keeps : ∀ b, c.declaration? name = some b →
        b.mergesInherited = true ∧ b.keepsInherited c.handlers = true) :
      ComesDown cs name key v c

/-! ## One base -/

section

variable {cs : List Compilation} {c : Compilation} {name key : String} {v : Value}

theorem CompiledType.shows_iff_isSome {t : CompiledType} :
    t.Shows name key ↔ (t.entry? name key).isSome :=
  t.shows_iff

/-- The nearest block of a type is that of the first layer with one. -/
theorem CompiledType.exists_layer {t : CompiledType} (h : (t.block? name).isSome) :
    ∃ layer, t.layers.find? (fun l => (l.block? name).isSome) = some layer ∧
      ∀ key, t.entry? name key = layer.entry? name key := by
  obtain ⟨merged, hmerged⟩ := Option.isSome_iff_exists.mp h
  obtain ⟨layer, hfind, hblock⟩ := findSome?_eq_some_iff_find?.mp hmerged
  refine ⟨layer, hfind, fun key => ?_⟩
  rw [CompiledType.entry?, hmerged, Layer.entry?, hblock]

theorem Layer.block?_isSome {l : Layer} (h : (l.entry? name key).isSome) :
    (l.block? name).isSome := by
  unfold Layer.entry? at h
  cases hblock : l.block? name with
  | none => simp [hblock] at h
  | some merged => rfl

/-- What is found first along a list is found first along a part of it, be it in another way. -/
theorem eq_of_find?_sublist {α : Type} {found other : α → Bool} {l m : List α} {a b : α}
    (hsub : l.Sublist m) (hnodup : m.Nodup) (ha : m.find? found = some a) (hmem : a ∈ l)
    (hb : l.find? other = some b) (hother : other a = true) (hfound : found b = true) : b = a := by
  by_contra hne
  have hbehind : [a, b].Sublist m :=
    sublist_of_find?_eq_some ha (hsub.mem (List.mem_of_find?_eq_some hb)) hfound hne
  have hahead : [b, a].Sublist m :=
    (sublist_of_find?_eq_some hb hmem hother (Ne.symm hne)).trans hsub
  exact Linearization.not_sublist_swap hnodup hbehind hahead

/-- A base that shows a key has the entry of the nearest ancestor that has one, if it inherits from
that ancestor. -/
theorem Hierarchy.entry?_base (h : Hierarchy cs) (hc : c ∈ cs) {layer : Layer}
    (hnearest : c.compiled.ancestors.find? (fun l => (l.entry? name key).isSome) = some layer)
    {base : CompiledType} (hb : base ∈ c.bases) (hlayer : layer ∈ base.layers)
    (hshows : base.Shows name key) : base.entry? name key = layer.entry? name key := by
  have hentry := CompiledType.shows_iff_isSome.mp hshows
  have hlast := List.find?_some hnearest
  obtain ⟨merged, hmerged, _⟩ := hshows
  obtain ⟨first, hfind, hsame⟩ :=
    CompiledType.exists_layer (Option.isSome_iff_exists.mpr ⟨merged, hmerged⟩)
  rw [hsame] at hentry ⊢
  rw [eq_of_find?_sublist (h.base_sublist hc hb) (h.nodup_ancestors hc) hnearest hlayer hfind
    (Layer.block?_isSome hlast) hentry]

/-- A type that does not declare the block shows what one of its bases shows. -/
theorem Hierarchy.entry?_of_not_declared (h : Hierarchy cs) (hc : c ∈ cs)
    (hnone : c.declaration? name = none) (hentry : c.compiled.entry? name key = some v) :
    ∃ base ∈ c.bases, base.entry? name key = some v := by
  obtain ⟨merged, hmerged, _⟩ := Option.bind_eq_some_iff.mp hentry
  obtain ⟨layer, hfind, hsame⟩ :=
    CompiledType.exists_layer (Option.isSome_iff_exists.mpr ⟨merged, hmerged⟩)
  have hown : (c.compiled.own.block? name).isSome = false := by
    rw [Compilation.block?_of_not_declared hnone]
    rfl
  rw [CompiledType.layers, List.find?_cons_of_neg (by simp [hown])] at hfind
  have hblock := List.find?_some hfind
  obtain ⟨base, hb, hlayer⟩ :=
    ((h.ancestors_spec hc).1 layer).mp (List.mem_of_find?_eq_some hfind)
  have hsome : (base.block? name).isSome := List.findSome?_isSome_iff.mpr ⟨layer, hlayer, hblock⟩
  obtain ⟨first, hfirst, hbase⟩ := CompiledType.exists_layer hsome
  have hown := List.find?_some hfirst
  have heq : first = layer := eq_of_find?_sublist (h.base_sublist hc hb) (h.nodup_ancestors hc)
    hfind hlayer hfirst hblock hown
  exact ⟨base, hb, by rw [hbase, heq, ← hsame, hentry]⟩

/-! ## One type -/

/-- What a block inherits under a key is shown by a direct base, unless it is uncovered. -/
theorem Hierarchy.exists_base (h : Hierarchy cs) (hc : c ∈ cs)
    (hcovered : ∀ layer, ¬ c.Uncovers name key layer) (hv : c.inherited? name key = some v) :
    ∃ base ∈ c.bases, base.entry? name key = some v := by
  obtain ⟨layer, hnearest, hlayer⟩ := findSome?_eq_some_iff_find?.mp (inheritedBlock_get? hv)
  have hshown : ∃ base ∈ c.bases, base.Shows name key :=
    (inheritedBlock_isSome_iff (h.ancestors_spec hc).2).mp (Option.isSome_iff_exists.mpr ⟨v, hv⟩)
  by_contra hnobody
  refine hcovered layer ⟨hnearest, hshown, fun base hb hmem hshows => hnobody ⟨base, hb, ?_⟩⟩
  rw [h.entry?_base hc hnearest hb hmem hshows, hlayer]

/-- What a layer has under a key is written in its block, or else inherited. -/
theorem Compilation.entry?_cases (hv : c.compiled.own.entry? name key = some v) :
    c.Writes name key v ∨ ∃ b, c.declaration? name = some b ∧ key ∉ b.entries.keys ∧
      b.keepsInherited c.handlers = true ∧ c.inherited? name key = some v := by
  obtain ⟨merged, hmerged, hentry⟩ := Option.bind_eq_some_iff.mp hv
  cases hdeclared : c.declaration? name with
  | none =>
      rw [block?_of_not_declared hdeclared] at hmerged
      cases hmerged
  | some b =>
      obtain ⟨own, hown, hentries⟩ := block?_of_declaration? hdeclared
      obtain rfl := Option.some.inj (hmerged.symm.trans hown)
      rw [hentries, Site.mergedEntries] at hentry
      cases hkeeps : b.keepsInherited c.handlers with
      | false =>
          rw [hkeeps, if_neg (by simp)] at hentry
          exact .inl ⟨b, hdeclared, Entries.mem_of_get?_eq_some hentry⟩
      | true =>
          rw [hkeeps, if_pos rfl] at hentry
          by_cases hkey : key ∈ b.entries.keys
          · obtain ⟨w, hw, hget⟩ := Entries.exists_get?_overlay hkey
              (inheritedBlock c.site.bases c.site.ancestors b.identity).entries
            obtain rfl := Option.some.inj (hget.symm.trans hentry)
            exact .inl ⟨b, hdeclared, hw⟩
          · rw [Entries.get?_overlay_of_not_mem hkey] at hentry
            refine .inr ⟨b, rfl, hkey, hkeeps, ?_⟩
            rw [← hentry, inherited?, inheritedBlock_congr (declaration?_eq_some hdeclared).2]
            rfl

/-! ## Down to a type -/

/-- Flags that make no sense for a handler are refused, so a block that keeps what it inherits
extends. -/
theorem Compilation.mergesInherited_of_keeps {b : Block} (hb : b ∈ c.spec.blocks)
    (hkeeps : b.keepsInherited c.handlers = true) : b.mergesInherited = true := by
  unfold Block.keepsInherited at hkeeps
  cases hfind : c.handlers.find? b.identity with
  | none =>
      rw [hfind] at hkeeps
      exact (Bool.and_eq_true_iff.mp hkeeps).1
  | some handler =>
      rw [hfind] at hkeeps
      rcases Bool.or_eq_true_iff.mp hkeeps with hfixed | hmerges
      · have hextend : b.extend ≠ some false := by
          intro hdrops
          rw [(c.flags_fit hb hfind).1 hdrops] at hfixed
          cases hfixed
        rcases hflag : b.extend with _ | _ | _
        · simp [Block.mergesInherited, hflag]
        · exact absurd hflag hextend
        · simp [Block.mergesInherited, hflag]
      · exact hmerges

/-- Where an entry comes from that a type shows: one of its blocks has it written, the type has
uncovered it, or a base shows it and nothing stands in the way. -/
theorem Hierarchy.entry?_comes_from (h : Hierarchy cs) (hc : c ∈ cs)
    (hv : c.compiled.entry? name key = some v) :
    c.Writes name key v ∨
      (c.inherited? name key = some v ∧ ∃ layer, c.Uncovers name key layer) ∨
      ((∃ base ∈ c.bases, base.entry? name key = some v) ∧ (∀ w, ¬ c.Writes name key w) ∧
        ∀ b, c.declaration? name = some b →
          b.mergesInherited = true ∧ b.keepsInherited c.handlers = true) := by
  cases hdeclared : c.declaration? name with
  | none =>
      refine .inr (.inr ⟨h.entry?_of_not_declared hc hdeclared hv, ?_, fun b hb => by cases hb⟩)
      rintro w ⟨b, hb, _⟩
      rw [hdeclared] at hb
      cases hb
  | some b =>
      have hown : c.compiled.own.entry? name key = some v := by
        obtain ⟨merged, hmerged, _⟩ := Compilation.block?_of_declaration? hdeclared
        rw [← hv, CompiledType.entry?, CompiledType.block?, CompiledType.layers,
          List.findSome?_cons, hmerged, Layer.entry?, hmerged]
      rcases Compilation.entry?_cases hown with hwrites | ⟨d, hd, hkey, hkeeps, hinherited⟩
      · exact .inl hwrites
      by_cases huncovers : ∃ layer, c.Uncovers name key layer
      · exact .inr (.inl ⟨hinherited, huncovers⟩)
      obtain rfl := Option.some.inj (hdeclared.symm.trans hd)
      refine .inr (.inr ⟨h.exists_base hc (not_exists.mp huncovers) hinherited, ?_, ?_⟩)
      · rintro w ⟨e, he, hw⟩
        obtain rfl := Option.some.inj (hdeclared.symm.trans he)
        exact hkey (List.mem_map_of_mem hw)
      · intro e he
        cases he
        exact ⟨Compilation.mergesInherited_of_keeps
          (Compilation.declaration?_eq_some hdeclared).1 hkeeps, hkeeps⟩

/-- An entry that a type shows came down to it, or else some part of the type has uncovered it. The
induction is on the number of layers. -/
theorem Hierarchy.comesDown (h : Hierarchy cs) (hc : c ∈ cs)
    (hv : c.compiled.entry? name key = some v) :
    ComesDown cs name key v c ∨ ∃ a ∈ cs, a.compiled.own ∈ c.compiled.layers ∧
      a.inherited? name key = some v ∧ ∃ layer, a.Uncovers name key layer := by
  induction hn : c.compiled.layers.length using Nat.strongRecOn generalizing c with
  | ind n ih =>
      rcases h.entry?_comes_from hc hv with
        hwrites | ⟨hinherited, huncovers⟩ | ⟨⟨base, hb, hbase⟩, hsilent, hkeeps⟩
      · exact .inl (.written hwrites)
      · exact .inr ⟨c, hc, List.mem_cons_self, hinherited, huncovers⟩
      · obtain ⟨p, hp, rfl⟩ := h.base_mem hc hb
        have hsub := h.base_sublist hc hb
        have hlt : p.compiled.layers.length < n := by
          have hle := hsub.length_le
          have hlayers : c.compiled.layers.length = c.compiled.ancestors.length + 1 := rfl
          omega
        rcases ih _ hlt hp hbase rfl with hdown | ⟨a, ha, hap, huncovers⟩
        · exact .inl (.handed hp hb hdown hsilent hkeeps)
        · exact .inr ⟨a, ha, List.mem_cons_of_mem _ (hsub.mem hap), huncovers⟩

/-- A type with one base uncovers nothing. -/
theorem Hierarchy.not_uncovers_of_single (h : Hierarchy cs) (hc : c ∈ cs)
    (hone : c.bases.length ≤ 1) (layer : Layer) : ¬ c.Uncovers name key layer := by
  intro huncovers
  obtain ⟨base, hb, hshows⟩ := huncovers.shown
  obtain ⟨other, hother, hlayer⟩ := ((h.ancestors_spec hc).1 layer).mp
    (List.mem_of_find?_eq_some huncovers.nearest)
  refine huncovers.hidden base hb ?_ hshows
  obtain ⟨only, honly⟩ : ∃ only, c.bases = [only] := by
    refine List.length_eq_one_iff.mp ?_
    have := List.length_pos_of_mem hb
    omega
  rw [honly, List.mem_singleton] at hb hother
  rw [hb, ← hother]
  exact hlayer

end

/-! ## What a block inherits -/

/-- What there is to say about the entry that a block of a type inherits under a key. -/
structure Compilation.InheritsShown (cs : List Compilation) (c : Compilation) (name key : String) :
    Prop where
  /-- This is what a block of the type is compiled with. -/
  compiled : ∀ b ∈ c.spec.blocks, Text.lowercase b.identity = Text.lowercase name →
    (c.site.declaration b).inherited.entries.get? key = c.inherited? name key
  keys : (c.inherited? name key).isSome ↔ ∃ base ∈ c.bases, base.Shows name key
  /-- The value is the one that the nearest ancestor has. -/
  nearest : ∀ v, c.inherited? name key = some v → ∃ layer,
    c.compiled.ancestors.find? (fun l => (l.entry? name key).isSome) = some layer ∧
      layer.entry? name key = some v
  /-- A direct base has the pair in its nearest block, unless the type uncovers it. -/
  shown : (∀ layer, ¬ c.Uncovers name key layer) → ∀ v, c.inherited? name key = some v →
    ∃ base ∈ c.bases, base.entry? name key = some v
  /-- And what all bases agree on that show the key is inherited. -/
  agreed : (∀ layer, ¬ c.Uncovers name key layer) → (∃ base ∈ c.bases, base.Shows name key) →
    ∀ v, (∀ base ∈ c.bases, base.Shows name key → base.entry? name key = some v) →
      c.inherited? name key = some v
  /-- The entry came down to a direct base, or else a part of the type has uncovered it. -/
  comesDown : ∀ v, c.inherited? name key = some v →
    (∃ p ∈ cs, p.compiled ∈ c.bases ∧ ComesDown cs name key v p) ∨
      ∃ a ∈ cs, a.compiled.own ∈ c.compiled.layers ∧ a.inherited? name key = some v ∧
        ∃ layer, a.Uncovers name key layer
  single : c.bases.length ≤ 1 → ∀ layer, ¬ c.Uncovers name key layer

/-- What direct bases show is what a block inherits, unless the type uncovers an entry; and no entry
that was cut off on every path comes back in another way. -/
theorem Hierarchy.inherited_shown {cs : List Compilation} (h : Hierarchy cs) {c : Compilation}
    (hc : c ∈ cs) (name key : String) : c.InheritsShown cs name key where
  compiled := by
    intro b _ hname
    rw [Compilation.inherited?, ← inheritedBlock_congr hname]
    rfl
  keys := inheritedBlock_isSome_iff (h.ancestors_spec hc).2
  nearest := fun v hv => findSome?_eq_some_iff_find?.mp (inheritedBlock_get? hv)
  shown := fun hcovered v hv => h.exists_base hc hcovered hv
  agreed := by
    intro hcovered hshown v hagree
    obtain ⟨w, hw⟩ := Option.isSome_iff_exists.mp
      ((inheritedBlock_isSome_iff (h.ancestors_spec hc).2).mpr hshown)
    obtain ⟨base, hb, hbase⟩ := h.exists_base hc hcovered hw
    have hsame := hagree base hb (CompiledType.shows_iff_isSome.mpr (by simp [hbase]))
    rw [hbase] at hsame
    exact hw.trans hsame
  comesDown := by
    intro v hv
    by_cases huncovers : ∃ layer, c.Uncovers name key layer
    · exact .inr ⟨c, hc, List.mem_cons_self, hv, huncovers⟩
    · obtain ⟨base, hb, hbase⟩ := h.exists_base hc (not_exists.mp huncovers) hv
      obtain ⟨p, hp, rfl⟩ := h.base_mem hc hb
      rcases h.comesDown hp hbase with hdown | ⟨a, ha, hap, huncovers⟩
      · exact .inl ⟨p, hp, hb, hdown⟩
      · exact .inr ⟨a, ha, List.mem_cons_of_mem _ ((h.base_sublist hc hb).mem hap), huncovers⟩
  single := h.not_uncovers_of_single hc

/-! ## A key that is shown by another base

One base drops what the root declares, and the other, which has nothing to do with the root,
declares the same key. -/

namespace Uncovered

def root : Compilation :=
  .ofOk .builtIn 0 { name := "Root", blocks := [Diamond.parts [("x", .int 1)]] } []
    (by decide +kernel)

def cutting : Compilation :=
  .ofOk .builtIn 1
    { name := "Cutting"
      blocks := [{ identity := "Components", entries := [("y", .int 3)], extend := some false }] }
    [root.compiled] (by decide +kernel)

def further : Compilation :=
  .ofOk .builtIn 2 { name := "Further", blocks := [Diamond.parts [("x", .int 2)]] } []
    (by decide +kernel)

def last : Compilation :=
  .ofOk .builtIn 3 { name := "Last", blocks := [Diamond.parts [("z", .int 4)]] }
    [cutting.compiled, further.compiled] (by decide +kernel)

theorem hierarchy : Hierarchy [last, further, cutting, root] := by
  refine .compile (.compile (.compile (.compile .empty ?_ ?_) ?_ ?_) ?_ ?_) ?_ ?_
  · simp
  · simp [root, Compilation.ofOk]
  · simp [root, cutting, Compilation.ofOk]
  · simp [cutting, Compilation.ofOk]
  · simp [root, cutting, further, Compilation.ofOk]
  · simp [further, Compilation.ofOk]
  · simp [root, cutting, further, last, Compilation.ofOk]
  · simp [last, Compilation.ofOk]

/-- The last type inherits the root's entry, which none of its bases shows. -/
theorem exists_unshown : ∃ v, last.inherited? "Components" "x" = some v ∧ v.int? = some 1 ∧
    ∀ base ∈ last.bases, base.entry? "Components" "x" ≠ some v := by
  have hlast : (last.inherited? "Components" "x").bind Value.int? = some 1 := by decide +kernel
  obtain ⟨v, hv, hint⟩ := Option.bind_eq_some_iff.mp hlast
  refine ⟨v, hv, hint, fun base hb hbase => ?_⟩
  have hmem : some 1 ∈ last.bases.map fun base =>
      (base.entry? "Components" "x").bind Value.int? :=
    List.mem_map.mpr ⟨base, hb, by rw [hbase]; exact hint⟩
  have hbases : (last.bases.map fun base => (base.entry? "Components" "x").bind Value.int?) =
      [none, some 2] := by decide +kernel
  rw [hbases] at hmem
  exact absurd hmem (by decide)

/-- What a type inherits need not be shown by a base, nor be the value that all bases agree on that
show the key. -/
theorem dropped_entry_returns :
    (¬ ∀ cs, Hierarchy cs → ∀ c ∈ cs, ∀ name key v, c.inherited? name key = some v →
      ∃ base ∈ c.bases, base.entry? name key = some v) ∧
    ¬ ∀ cs, Hierarchy cs → ∀ c ∈ cs, ∀ name key v w, c.inherited? name key = some v →
      (∀ base ∈ c.bases, base.Shows name key → base.entry? name key = some w) → v = w := by
  obtain ⟨v, hv, hint, hunshown⟩ := exists_unshown
  constructor
  · intro hclaim
    obtain ⟨base, hb, hbase⟩ := hclaim _ hierarchy last List.mem_cons_self "Components" "x" v hv
    exact hunshown base hb hbase
  · intro hclaim
    have hfurther : (further.compiled.entry? "Components" "x").bind Value.int? = some 2 := by
      decide +kernel
    obtain ⟨w, hw, hother⟩ := Option.bind_eq_some_iff.mp hfurther
    have hagree : ∀ base ∈ last.bases, base.Shows "Components" "x" →
        base.entry? "Components" "x" = some w := by
      intro base hb hshows
      rcases List.mem_cons.mp hb with rfl | hb
      · have hhidden : ¬ cutting.compiled.Shows "Components" "x" := by decide +kernel
        exact absurd hshows hhidden
      · obtain rfl := List.mem_singleton.mp hb
        exact hw
    obtain rfl := hclaim _ hierarchy last List.mem_cons_self "Components" "x" v w hv hagree
    rw [hint] at hother
    cases hother

/-- The other key of the last type comes from the base that shows it. -/
theorem not_uncovers_y {a : Compilation} (ha : a ∈ [last, further, cutting, root]) (layer : Layer) :
    ¬ a.Uncovers "Components" "y" layer := by
  by_cases hone : a.bases.length ≤ 1
  · exact hierarchy.not_uncovers_of_single ha hone layer
  · obtain rfl : a = last := by
      simp only [List.mem_cons, List.not_mem_nil, or_false] at ha
      rcases ha with rfl | rfl | rfl | rfl
      · rfl
      all_goals exact absurd (by decide) hone
    intro huncovers
    have hid : (last.compiled.ancestors.find? fun l => (l.entry? "Components" "y").isSome).map
        Layer.id = some 1 := by decide +kernel
    rw [huncovers.nearest] at hid
    obtain ⟨d, hd, rfl, _⟩ := hierarchy.ancestor_made ha
      (List.mem_of_find?_eq_some huncovers.nearest)
    obtain rfl : d = cutting :=
      hierarchy.eq_of_id hd (by simp) ((Option.some.inj hid).trans cutting.own_id.symm)
    have hshows : cutting.compiled.Shows "Components" "y" := by decide +kernel
    exact huncovers.hidden _ List.mem_cons_self List.mem_cons_self hshows

/-- That entry is shown by a base, and came down to one; the root's was uncovered on the way. -/
theorem inherited_shown_last :
    (∃ v, last.inherited? "Components" "y" = some v ∧
      (∃ base ∈ last.bases, base.entry? "Components" "y" = some v) ∧
      ∃ p ∈ [last, further, cutting, root], p.compiled ∈ last.bases ∧
        ComesDown [last, further, cutting, root] "Components" "y" v p) ∧
    ∃ layer, last.Uncovers "Components" "x" layer := by
  have hlast : last ∈ [last, further, cutting, root] := List.mem_cons_self
  have hy := hierarchy.inherited_shown hlast "Components" "y"
  have hx := hierarchy.inherited_shown hlast "Components" "x"
  constructor
  · have hinherited : (last.inherited? "Components" "y").isSome := by decide +kernel
    obtain ⟨v, hv⟩ := Option.isSome_iff_exists.mp hinherited
    refine ⟨v, hv, hy.shown (not_uncovers_y hlast) v hv, ?_⟩
    rcases hy.comesDown v hv with hdown | ⟨a, ha, _, _, layer, huncovers⟩
    · exact hdown
    · exact absurd huncovers (not_uncovers_y ha layer)
  · obtain ⟨v, hv, _, hunshown⟩ := exists_unshown
    by_contra hcovered
    obtain ⟨base, hb, hbase⟩ := hx.shown (not_exists.mp hcovered) v hv
    exact hunshown base hb hbase

end Uncovered

end AppAssembly
