import AppAssembly.Proofs.Nullifying

/-!
# Single inheritance

On a line every type is built on the one before it. What a block inherits is then merged already, in
the nearest block of the name, so it went through one merge for every type that declares the block.
That comes to the same as searching the declarations themselves: from the most derived one on, up to
the first that cuts off what is behind it (`Line.nearest_get?`).
-/

namespace AppAssembly

open Compile

/-! ## Lines -/

/-- What a type is built on that extends a line. -/
def tip (line : List Compilation) : List CompiledType :=
  (line.head?.map Compilation.compiled).toList

/-- Types of which each is built on the one behind it, and the last on none. -/
inductive Line : List Compilation → Prop where
  | empty : Line []
  | extend {line : List Compilation} {c : Compilation} (h : Line line)
      (fresh : ∀ d ∈ line, d.layer ≠ c.layer) (base : c.bases = tip line) : Line (c :: line)

namespace Line

variable {line : List Compilation} {c : Compilation}

theorem hierarchy (h : Line line) : Hierarchy line := by
  induction h with
  | empty => exact .empty
  | @extend line c _ fresh base ih =>
      refine .compile ih fresh fun t ht => ?_
      rw [base] at ht
      cases line with
      | nil => cases ht
      | cons d rest => exact ⟨d, List.mem_cons_self, (List.mem_singleton.mp ht).symm⟩

/-- The layers of a type are the own layers of the line that it ends. -/
theorem layers (h : Line (c :: line)) :
    c.compiled.layers = (c :: line).map fun d => d.compiled.own := by
  have hmade := h.hierarchy
  induction line generalizing c with
  | nil =>
      cases h with
      | extend rest fresh base =>
          have hnone : c.compiled.ancestors = [] := by
            refine List.eq_nil_iff_forall_not_mem.mpr fun layer hlayer => ?_
            obtain ⟨_, hb, _⟩ :=
              ((hmade.ancestors_spec List.mem_cons_self).1 layer).mp hlayer
            rw [base] at hb
            cases hb
          rw [CompiledType.layers, hnone]
          rfl
  | cons d line ih =>
      cases h with
      | extend rest fresh base =>
          have hsame := hmade.ancestors_of_single List.mem_cons_self base
          rw [CompiledType.layers, hsame, ih rest rest.hierarchy]
          rfl

theorem ancestors (h : Line (c :: line)) :
    c.compiled.ancestors = line.map fun d => d.compiled.own :=
  (List.cons.inj h.layers).2

theorem base (h : Line (c :: line)) : c.bases = tip line := by
  cases h with
  | extend _ _ base => exact base

end Line

/-- Where a type that extends a line puts its blocks. -/
def siteOn (line : List Compilation) (typeName : String) (layer : Nat) : Site where
  typeName := typeName
  layer := layer
  bases := tip line
  ancestors := line.map fun d => d.compiled.own

theorem Line.site {line : List Compilation} {c : Compilation} (h : Line (c :: line)) :
    c.site = siteOn line c.spec.name c.layer := by
  unfold Compilation.site siteOn
  rw [h.base, h.ancestors]

/-! ## What is inherited on a line -/

/-- The nearest merged block of a name on a line. -/
def nearest? (line : List Compilation) (name : String) : Option EffectiveBlock :=
  line.findSome? fun c => c.compiled.own.block? name

section

variable {line : List Compilation} {name : String}

theorem nearest?_of_declared {c : Compilation} {merged : EffectiveBlock}
    (h : c.compiled.own.block? name = some merged) : nearest? (c :: line) name = some merged := by
  rw [nearest?, List.findSome?_cons, h]

theorem nearest?_of_not_declared {c : Compilation} (h : c.declaration? name = none) :
    nearest? (c :: line) name = nearest? line name := by
  rw [nearest?, List.findSome?_cons, Compilation.block?_of_not_declared h]
  rfl

theorem Line.block?_tip {d : Compilation} (h : Line (d :: line)) :
    d.compiled.block? name = nearest? (d :: line) name := by
  unfold CompiledType.block? nearest?
  rw [h.layers, List.findSome?_map]
  rfl

/-- The blocks that the bases show are the nearest one. -/
theorem Line.shown (h : Line line) :
    ((tip line).filterMap fun base => base.block? name) = (nearest? line name).toList := by
  cases line with
  | nil => rfl
  | cons d rest =>
      show [d.compiled].filterMap _ = _
      rw [← h.block?_tip]
      cases hblock : d.compiled.block? name <;> simp [hblock]

/-- The nearest block stands in front of all others. -/
theorem exists_owned {merged : EffectiveBlock} (h : nearest? line name = some merged) :
    ∃ rest, ((line.map fun c => c.compiled.own).filterMap fun layer => layer.block? name) =
      merged :: rest := by
  have hhead : ((line.map fun c => c.compiled.own).filterMap fun layer =>
      layer.block? name).head? = some merged := by
    rw [List.head?_filterMap, List.findSome?_map]
    exact h
  obtain ⟨rest, hrest⟩ := List.head?_eq_some_iff.mp hhead
  exact ⟨rest, hrest⟩

variable {typeName : String} {layer : Nat} {b : Block}

/-- A type on a line inherits the entries of the nearest block. -/
theorem Line.inherited_get? (h : Line line) (typeName : String) (layer : Nat)
    (hname : Text.lowercase b.identity = Text.lowercase name) (key : String) :
    ((siteOn line typeName layer).declaration b).inherited.entries.get? key =
      (nearest? line name).bind fun merged => merged.entries.get? key := by
  show Entries.get? (inheritedBlock (tip line) (line.map fun c => c.compiled.own)
    b.identity).entries key = _
  rw [inheritedBlock_congr hname]
  unfold inheritedBlock
  rw [h.shown, Entries.get?_filterMap]
  cases hnearest : nearest? line name with
  | none => simp [firstBy]
  | some merged =>
      obtain ⟨rest, hrest⟩ := exists_owned hnearest
      simp only [hrest, mem_firstBy_id, Option.toList_some, List.flatMap_singleton,
        ← Entries.get?_isSome_iff, List.findSome?_cons, Option.bind_some]
      cases merged.entries.get? key <;> rfl

/-- And its main type. -/
theorem Line.inherited_mainType (h : Line line)
    (hname : Text.lowercase b.identity = Text.lowercase name) :
    ((siteOn line typeName layer).declaration b).inherited.mainType =
      (nearest? line name).bind fun merged => merged.mainType := by
  show (inheritedBlock (tip line) (line.map fun c => c.compiled.own) b.identity).mainType = _
  rw [inheritedBlock_congr hname]
  unfold inheritedBlock
  rw [h.shown]
  cases hnearest : nearest? line name with
  | none => rfl
  | some merged =>
      obtain ⟨rest, hrest⟩ := exists_owned hnearest
      rw [hrest]
      simp only [Option.toList_some, List.any_cons, List.any_nil, Bool.or_false,
        List.findSome?_cons, Option.bind_some]
      cases merged.mainType <;> rfl

end

/-! ## Searching the declarations -/

/-- No two blocks of a type have one name, so a block is found under its own. -/
theorem Compilation.declaration?_of_mem {c : Compilation} {b : Block} (hb : b ∈ c.spec.blocks) :
    c.declaration? b.identity = some b := by
  cases hfound : c.declaration? b.identity with
  | none =>
      have hnot := List.find?_eq_none.mp hfound b hb
      simp at hnot
  | some d =>
      obtain ⟨hd, hname⟩ := declaration?_eq_some hfound
      rw [List.inj_on_of_nodup_map c.blocks_nodup hd hb hname]

/-- How far a search goes that passes some blocks, nearest first: to the first that cuts off what
is behind it, and no further. -/
def reach (cuts : Block → Bool) : List Block → List Block
  | [] => []
  | b :: rest => b :: if cuts b then [] else reach cuts rest

theorem findSome?_reach_cons {α : Type} (cuts : Block → Bool) (b : Block) (rest : List Block)
    (view : Block → Option α) :
    (reach cuts (b :: rest)).findSome? view =
      (view b).or (if cuts b then none else (reach cuts rest).findSome? view) := by
  rw [reach, List.findSome?_cons]
  cases view b with
  | some a => rfl
  | none => cases cuts b <;> rfl

/-- The blocks of a name that the types of a line declare, nearest first. -/
def declarations (line : List Compilation) (name : String) : List Block :=
  line.filterMap fun c => c.declaration? name

theorem declarations_of_declared {line : List Compilation} {c : Compilation} {name : String}
    {b : Block} (h : c.declaration? name = some b) :
    declarations (c :: line) name = b :: declarations line name :=
  List.filterMap_cons_some h

theorem declarations_of_not_declared {line : List Compilation} {c : Compilation} {name : String}
    (h : c.declaration? name = none) : declarations (c :: line) name = declarations line name :=
  List.filterMap_cons_none h

/-- The entries of a block form a map: no key stands twice. -/
def Block.Distinct (b : Block) : Prop :=
  b.entries.keys.Nodup

/-- Blocks are filled key by key, so their entries do. -/
theorem Block.Distinct.entry {b : Block} (h : b.Distinct) (key : String) (v : Value) :
    (b.entry key v).Distinct := by
  unfold Block.entry
  split
  · unfold setFlag
    split <;> exact h
  · exact Entries.nodup_keys_insert h key v

section

variable {line : List Compilation} {name : String}

/-- What the merged blocks of a line come to. The nearest one has an entry exactly if searching the
declarations finds it. -/
theorem Line.nearest_get? (h : Line line) {keeps : Block → Bool}
    (hkeeps : ∀ c ∈ line, ∀ b, c.declaration? name = some b →
      b.keepsInherited c.handlers = keeps b)
    (hdistinct : ∀ b ∈ declarations line name, b.Distinct) (key : String) :
    ((nearest? line name).bind fun merged => merged.entries.get? key) =
      (reach (fun b => !keeps b) (declarations line name)).findSome? fun b =>
        b.entries.get? key := by
  induction h with
  | empty => rfl
  | @extend line c h fresh base ih =>
      have hrest := ih (fun d hd => hkeeps d (List.mem_cons_of_mem c hd))
      cases hdeclared : c.declaration? name with
      | none =>
          rw [declarations_of_not_declared hdeclared] at hdistinct ⊢
          rw [nearest?_of_not_declared hdeclared]
          exact hrest hdistinct
      | some b =>
          rw [declarations_of_declared hdeclared] at hdistinct ⊢
          obtain ⟨hb, hbehind⟩ := List.forall_mem_cons.mp hdistinct
          obtain ⟨_, hname⟩ := Compilation.declaration?_eq_some hdeclared
          obtain ⟨merged, hblock, hentries⟩ := Compilation.block?_of_declaration? hdeclared
          rw [nearest?_of_declared hblock, findSome?_reach_cons, Option.bind_some, hentries,
            Site.mergedEntries, hkeeps c List.mem_cons_self b hdeclared, ← hrest hbehind]
          cases keeps b with
          | false => simp
          | true =>
              have hsite := (Line.extend h fresh base).site
              rw [if_pos rfl, Entries.get?_overlay, Entries.get?_ofPairs hb, hsite]
              exact congrArg _ (h.inherited_get? _ _ hname key)

end

end AppAssembly
