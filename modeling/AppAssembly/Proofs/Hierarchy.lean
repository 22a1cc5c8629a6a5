import AppAssembly.Compile
import AppAssembly.Proofs.Linearization

/-!
# Hierarchies

An application compiles its types one after the other, each on top of types it compiled before. In
every such hierarchy a type's own layer stands first, no layer stands twice, and a type keeps the
order of all types it inherits from (`Hierarchy.chain`). A new type finds an order for its
ancestors exactly if there is one.
-/

namespace AppAssembly

/-! ## What a compilation leaves behind -/

theorem bind_eq_ok {ε α β : Type} {x : Except ε α} {f : α → Except ε β} {b : β} :
    (x >>= f) = .ok b ↔ ∃ a, x = .ok a ∧ f a = .ok b := by
  cases x with
  | error e => simp [bind, Except.bind]
  | ok a => simp [bind, Except.bind]

theorem bind_eq_error {ε α β : Type} {x : Except ε α} {f : α → Except ε β} {e : ε} :
    (x >>= f) = .error e ↔ x = .error e ∨ ∃ a, x = .ok a ∧ f a = .error e := by
  cases x with
  | error e' => simp [bind, Except.bind]
  | ok a => simp [bind, Except.bind]

open Compile in
/-- Everything that went well when a type was compiled, and the layer that came of it. -/
theorem compile_eq_ok {registry : HandlerRegistry} {layer : Nat} {spec : TypeSpec}
    {bases : List CompiledType} {t : CompiledType}
    (h : compile registry layer spec bases = .ok t) :
    ancestorsOf spec.name bases = .ok t.ancestors ∧
    checkBlocks spec.name [] spec.blocks = .ok () ∧
    ∃ known draft : Draft,
      (Draft.start spec).addAllKnown registry ⟨spec.name, layer, bases, t.ancestors⟩
        (knownBlocks registry spec.blocks) = .ok known ∧
      known.addAllCustom ⟨spec.name, layer, bases, t.ancestors⟩
        (customBlocks registry spec.blocks) = .ok draft ∧
      t.own =
        { id := layer
          name := spec.name
          origin := spec.origin
          bases := bases.map CompiledType.name
          blocks := draft.blocks
          members := (draft.addByHand spec).members
          ledger := ((draft.addByHand spec).ledger.recordReplaced spec.origin
            (replacedNames spec t.ancestors (draft.addByHand spec).ledger)).normalise } := by
  rw [compile] at h
  obtain ⟨ancestors, hancestors, h⟩ := bind_eq_ok.mp h
  obtain ⟨_, hcheck, h⟩ := bind_eq_ok.mp h
  obtain ⟨known, hknown, h⟩ := bind_eq_ok.mp h
  obtain ⟨draft, hdraft, h⟩ := bind_eq_ok.mp h
  cases h
  exact ⟨hancestors, hcheck, known, draft, hknown, hdraft, rfl⟩

/-- A call of `compile` that succeeded. -/
structure Compilation where
  handlers : HandlerRegistry
  layer : Nat
  spec : TypeSpec
  bases : List CompiledType
  compiled : CompiledType
  result : compile handlers layer spec bases = .ok compiled

namespace Compilation

theorem ancestors (c : Compilation) :
    ancestorsOf c.spec.name c.bases = .ok c.compiled.ancestors :=
  (compile_eq_ok c.result).1

theorem own_id (c : Compilation) : c.compiled.own.id = c.layer := by
  obtain ⟨_, _, _, _, _, _, hown⟩ := compile_eq_ok c.result
  rw [hown]

end Compilation

/-- What an application has compiled, the last type first. Every type got an identity of its own
and was built on types that were there before; the handlers may change between two types, and a
call of `compile` that fails leaves nothing behind. -/
inductive Hierarchy : List Compilation → Prop where
  | empty : Hierarchy []
  | compile {earlier : List Compilation} {c : Compilation} (h : Hierarchy earlier)
      (fresh : ∀ d ∈ earlier, d.layer ≠ c.layer)
      (known : ∀ base ∈ c.bases, ∃ d ∈ earlier, d.compiled = base) :
      Hierarchy (c :: earlier)

/-! ## The ancestors of a list of bases -/

/-- The rows that are merged for a list of bases. -/
def baseRows (bases : List CompiledType) : List (List Layer) :=
  bases.map CompiledType.layers ++ [bases.map CompiledType.own]

theorem mem_baseRows {bases : List CompiledType} {row : List Layer} :
    row ∈ baseRows bases ↔
      (∃ base ∈ bases, base.layers = row) ∨ row = bases.map CompiledType.own := by
  simp [baseRows]

theorem repeatedBase?_eq_none_iff {earlier : List Nat} {bases : List CompiledType} :
    repeatedBase? earlier bases = none ↔
      (bases.map fun base => base.own.id).Nodup ∧ ∀ base ∈ bases, base.own.id ∉ earlier := by
  induction bases generalizing earlier with
  | nil => simp [repeatedBase?]
  | cons base rest ih =>
      rw [repeatedBase?]
      by_cases hbase : base.own.id ∈ earlier
      · simp [hbase]
      · rw [if_neg hbase, ih, List.map_cons, List.nodup_cons]
        simp only [List.mem_cons, not_or, List.mem_map, not_exists, not_and, forall_eq_or_imp]
        constructor
        · rintro ⟨hnodup, hrest⟩
          exact ⟨⟨fun b hb => (hrest b hb).1, hnodup⟩, hbase, fun b hb => (hrest b hb).2⟩
        · rintro ⟨⟨hnew, hnodup⟩, _, hrest⟩
          exact ⟨hnodup, fun b hb => ⟨hnew b hb, hrest b hb⟩⟩

theorem ancestorsOf_eq_ok_iff {typeName : String} {bases : List CompiledType}
    {order : List Layer} :
    ancestorsOf typeName bases = .ok order ↔
      (bases.map fun base => base.own.id).Nodup ∧
        Linearization.merge Layer.id (baseRows bases) = some order := by
  have hrepeated := @repeatedBase?_eq_none_iff [] bases
  simp only [List.not_mem_nil, not_false_eq_true, implies_true, and_true] at hrepeated
  rw [← hrepeated, ancestorsOf, baseRows]
  cases repeatedBase? [] bases with
  | some base => simp
  | none =>
      cases Linearization.merge Layer.id
          (bases.map CompiledType.layers ++ [bases.map CompiledType.own]) <;> simp

/-- Lists whose keys form a subsequence form one themselves, if a key has one element only. -/
theorem sublist_of_map_sublist {α κ : Type} {key : α → κ} {l m : List α}
    (hinj : ∀ a ∈ l, ∀ b ∈ m, key a = key b → a = b) (h : (l.map key).Sublist (m.map key)) :
    l.Sublist m := by
  induction m generalizing l with
  | nil =>
      rw [List.map_nil, List.sublist_nil, List.map_eq_nil_iff] at h
      subst h
      exact .slnil
  | cons b m ih =>
      have hrest : ∀ a ∈ l, ∀ c ∈ m, key a = key c → a = c :=
        fun a ha c hc => hinj a ha c (List.mem_cons_of_mem b hc)
      cases l with
      | nil => exact List.nil_sublist _
      | cons a l =>
          rw [List.map_cons, List.map_cons] at h
          rcases List.sublist_cons_iff.mp h with h | ⟨keys, hkeys, h⟩
          · exact (ih hrest h).cons b
          · obtain ⟨hab, rfl⟩ := List.cons.inj hkeys
            rw [hinj a List.mem_cons_self b List.mem_cons_self hab]
            exact (ih (fun c hc => hrest c (List.mem_cons_of_mem a hc)) h).cons_cons b

/-- Which layers the order of some ancestors has, and what it keeps. Layers with one identity have
to be the same. -/
theorem ancestorsOf_spec {typeName : String} {bases : List CompiledType} {order : List Layer}
    (hinj : ∀ base ∈ bases, ∀ other ∈ bases, ∀ l ∈ base.layers, ∀ m ∈ other.layers,
      l.id = m.id → l = m)
    (h : ancestorsOf typeName bases = .ok order) :
    (order.map Layer.id).Nodup ∧
    (∀ layer, layer ∈ order ↔ ∃ base ∈ bases, layer ∈ base.layers) ∧
    (∀ base ∈ bases, base.layers.Sublist order) ∧
    (bases.map CompiledType.own).Sublist order := by
  obtain ⟨_, hmerge⟩ := ancestorsOf_eq_ok_iff.mp h
  have hagrees := Linearization.merge_agrees hmerge
  have hrow : ∀ row ∈ baseRows bases, ∀ l ∈ row, ∃ base ∈ bases, l ∈ base.layers := by
    intro row hrow l hl
    rcases mem_baseRows.mp hrow with ⟨base, hbase, rfl⟩ | rfl
    · exact ⟨base, hbase, hl⟩
    · obtain ⟨base, hbase, rfl⟩ := List.mem_map.mp hl
      exact ⟨base, hbase, List.mem_cons_self⟩
  have hmem : ∀ l ∈ order, ∃ base ∈ bases, l ∈ base.layers := by
    intro l hl
    obtain ⟨row, hr, hl⟩ := Linearization.mem_of_mem_merge hmerge hl
    exact hrow row hr l hl
  have hkeeps : ∀ row ∈ baseRows bases, row.Sublist order := by
    intro row hr
    refine sublist_of_map_sublist (fun l hl m hm hid => ?_) (hagrees.keeps row hr)
    obtain ⟨base, hbase, hl⟩ := hrow row hr l hl
    obtain ⟨other, hother, hm⟩ := hmem m hm
    exact hinj base hbase other hother l hl m hm hid
  have hbase : ∀ base ∈ bases, base.layers.Sublist order :=
    fun base hb => hkeeps _ (mem_baseRows.mpr (.inl ⟨base, hb, rfl⟩))
  refine ⟨hagrees.nodup, fun l => ⟨hmem l, ?_⟩, hbase, hkeeps _ (mem_baseRows.mpr (.inr rfl))⟩
  rintro ⟨base, hb, hl⟩
  exact (hbase base hb).mem hl

/-! ## The chain of a type -/

/-- What the layers of a type are like among some compilations: no layer stands twice, and each
was made by a compilation whose own order of layers is kept. -/
structure Chain (cs : List Compilation) (t : CompiledType) : Prop where
  nodup : (t.layers.map Layer.id).Nodup
  made : ∀ layer ∈ t.layers, ∃ c ∈ cs, c.compiled.own = layer ∧
    c.compiled.layers.Sublist t.layers

theorem Chain.mono {cs : List Compilation} {t : CompiledType} (h : Chain cs t) (c : Compilation) :
    Chain (c :: cs) t where
  nodup := h.nodup
  made layer hl := by
    obtain ⟨d, hd, hown, hsub⟩ := h.made layer hl
    exact ⟨d, List.mem_cons_of_mem c hd, hown, hsub⟩

namespace Hierarchy

variable {cs : List Compilation}

/-- An identity belongs to one compilation. -/
theorem eq_of_id (h : Hierarchy cs) {c d : Compilation} (hc : c ∈ cs) (hd : d ∈ cs)
    (hid : c.compiled.own.id = d.compiled.own.id) : c = d := by
  induction h with
  | empty => cases hc
  | compile _ fresh _ ih =>
      rcases List.mem_cons.mp hc with rfl | hc' <;> rcases List.mem_cons.mp hd with rfl | hd'
      · rfl
      · exact absurd (c.own_id ▸ d.own_id ▸ hid.symm) (fresh d hd')
      · exact absurd (c.own_id ▸ d.own_id ▸ hid) (fresh c hc')
      · exact ih hc' hd'

/-- An identity belongs to one layer, whatever types it is a part of. -/
theorem layer_eq_of_id (h : Hierarchy cs) {t u : CompiledType} (ht : Chain cs t)
    (hu : Chain cs u) {l m : Layer} (hl : l ∈ t.layers) (hm : m ∈ u.layers)
    (hid : l.id = m.id) : l = m := by
  obtain ⟨c, hc, rfl, _⟩ := ht.made l hl
  obtain ⟨d, hd, rfl, _⟩ := hu.made m hm
  rw [h.eq_of_id hc hd hid]

/-- Every type of a hierarchy has a chain of layers made before or with it. -/
theorem chain (h : Hierarchy cs) {c : Compilation} (hc : c ∈ cs) : Chain cs c.compiled := by
  induction h generalizing c with
  | empty => cases hc
  | @compile earlier new h fresh known ih =>
      rcases List.mem_cons.mp hc with rfl | hc
      · have hbase : ∀ base ∈ c.bases, Chain earlier base := by
          intro base hb
          obtain ⟨d, hd, rfl⟩ := known base hb
          exact ih hd
        obtain ⟨hnodup, hmem, hkeeps, _⟩ := ancestorsOf_spec
          (fun base hb other ho l hl m hm =>
            h.layer_eq_of_id (hbase base hb) (hbase other ho) hl hm)
          c.ancestors
        have hmade : ∀ layer ∈ c.compiled.ancestors, ∃ d ∈ earlier, d.compiled.own = layer ∧
            d.compiled.layers.Sublist c.compiled.ancestors := by
          intro layer hl
          obtain ⟨base, hb, hl⟩ := (hmem layer).mp hl
          obtain ⟨d, hd, hown, hsub⟩ := (hbase base hb).made layer hl
          exact ⟨d, hd, hown, hsub.trans (hkeeps base hb)⟩
        refine ⟨?_, fun layer hl => ?_⟩
        · rw [CompiledType.layers, List.map_cons, List.nodup_cons]
          refine ⟨fun hown => ?_, hnodup⟩
          -- an ancestor's layer was made earlier, so it can't have the fresh identity
          obtain ⟨layer, hl, hid⟩ := List.mem_map.mp hown
          obtain ⟨d, hd, rfl, _⟩ := hmade layer hl
          exact fresh d hd (d.own_id ▸ c.own_id ▸ hid)
        · rcases List.mem_cons.mp hl with rfl | hl
          · exact ⟨c, List.mem_cons_self, rfl, .refl _⟩
          · obtain ⟨d, hd, hown, hsub⟩ := hmade layer hl
            exact ⟨d, List.mem_cons_of_mem c hd, hown, hsub.cons c.compiled.own⟩
      · exact (ih hc).mono new

/-- A type keeps the order of the layers of every type it is built on. -/
theorem layers_sublist (h : Hierarchy cs) {c d : Compilation} (hc : c ∈ cs) (hd : d ∈ cs)
    (hmem : d.compiled.own ∈ c.compiled.layers) :
    d.compiled.layers.Sublist c.compiled.layers := by
  obtain ⟨e, he, hown, hsub⟩ := (h.chain hc).made _ hmem
  obtain rfl := h.eq_of_id he hd (congrArg Layer.id hown)
  exact hsub

/-- A type comes before the types it inherits from wherever both are used, so it can't be a part
of them. -/
theorem own_notMem_ancestors (h : Hierarchy cs) {c : Compilation} (hc : c ∈ cs) :
    c.compiled.own ∉ c.compiled.ancestors := by
  intro hmem
  have hnodup := (h.chain hc).nodup
  rw [CompiledType.layers, List.map_cons, List.nodup_cons] at hnodup
  exact hnodup.1 (List.mem_map_of_mem hmem)

theorem nodup_ancestors (h : Hierarchy cs) {c : Compilation} (hc : c ∈ cs) :
    c.compiled.ancestors.Nodup := by
  have hnodup := (h.chain hc).nodup
  rw [CompiledType.layers, List.map_cons, List.nodup_cons] at hnodup
  refine List.Pairwise.of_map Layer.id (fun _ _ hid hlayer => ?_) hnodup.2
  exact hid (congrArg Layer.id hlayer)

/-- An ancestor's layer was made by a compilation whose layers are a part of the ancestors. -/
theorem ancestor_made (h : Hierarchy cs) {c : Compilation} (hc : c ∈ cs) {layer : Layer}
    (hl : layer ∈ c.compiled.ancestors) :
    ∃ d ∈ cs, d.compiled.own = layer ∧ d.compiled.layers.Sublist c.compiled.ancestors := by
  obtain ⟨d, hd, rfl, hsub⟩ := (h.chain hc).made layer (List.mem_cons_of_mem _ hl)
  refine ⟨d, hd, rfl, ?_⟩
  rcases List.sublist_cons_iff.mp hsub with hsub | ⟨rest, hrest, _⟩
  · exact hsub
  · -- otherwise both compilations made the same layer
    obtain ⟨hown, _⟩ := List.cons.inj hrest
    rw [hown] at hl
    exact absurd hl (h.own_notMem_ancestors hc)

/-- The layers of an ancestor's type stand among the ancestors in their own order. -/
theorem ancestor_sublist (h : Hierarchy cs) {c d : Compilation} (hc : c ∈ cs) (hd : d ∈ cs)
    (hmem : d.compiled.own ∈ c.compiled.ancestors) :
    d.compiled.layers.Sublist c.compiled.ancestors := by
  obtain ⟨e, he, hown, hsub⟩ := h.ancestor_made hc hmem
  obtain rfl := h.eq_of_id he hd (congrArg Layer.id hown)
  exact hsub

theorem base_mem (h : Hierarchy cs) {c : Compilation} (hc : c ∈ cs) {base : CompiledType}
    (hb : base ∈ c.bases) : ∃ d ∈ cs, d.compiled = base := by
  induction h with
  | empty => cases hc
  | @compile earlier new _ _ known ih =>
      have hbefore : ∃ d ∈ earlier, d.compiled = base := by
        rcases List.mem_cons.mp hc with rfl | hc
        · exact known base hb
        · exact ih hc
      obtain ⟨d, hd, hbase⟩ := hbefore
      exact ⟨d, List.mem_cons_of_mem new hd, hbase⟩

/-- The ancestors of a type are the layers of its bases, each base in its own order. -/
theorem ancestors_spec (h : Hierarchy cs) {c : Compilation} (hc : c ∈ cs) :
    (∀ layer, layer ∈ c.compiled.ancestors ↔ ∃ base ∈ c.bases, layer ∈ base.layers) ∧
      ∀ base ∈ c.bases, base.layers.Sublist c.compiled.ancestors := by
  have hchain : ∀ base ∈ c.bases, Chain cs base := by
    intro base hb
    obtain ⟨d, hd, rfl⟩ := h.base_mem hc hb
    exact h.chain hd
  obtain ⟨_, hmem, hbases, _⟩ := ancestorsOf_spec (fun base hb other ho l hl m hm =>
    h.layer_eq_of_id (hchain base hb) (hchain other ho) hl hm) c.ancestors
  exact ⟨hmem, hbases⟩

theorem base_sublist (h : Hierarchy cs) {c : Compilation} (hc : c ∈ cs) {base : CompiledType}
    (hb : base ∈ c.bases) : base.layers.Sublist c.compiled.ancestors :=
  (h.ancestors_spec hc).2 base hb

/-- The rows of some compiled bases agree with an order of layers exactly if the bases stand in it
as subsequences. -/
theorem agrees_baseRows_iff {bases : List CompiledType} {order : List Nat} :
    Linearization.Agrees Layer.id (baseRows bases) order ↔
      order.Nodup ∧ (∀ base ∈ bases, (base.layers.map Layer.id).Sublist order) ∧
        ((bases.map CompiledType.own).map Layer.id).Sublist order := by
  constructor
  · intro h
    exact ⟨h.nodup, fun base hb => h.keeps _ (mem_baseRows.mpr (.inl ⟨base, hb, rfl⟩)),
      h.keeps _ (mem_baseRows.mpr (.inr rfl))⟩
  · rintro ⟨hnodup, hbases, howns⟩
    refine ⟨hnodup, fun row hrow => ?_⟩
    rcases mem_baseRows.mp hrow with ⟨base, hb, rfl⟩ | rfl
    · exact hbases base hb
    · exact howns

/-- An order for the ancestors of new bases is found exactly if some order without repetitions
keeps the layers of every base and the bases themselves; the one that is found has the layers of
the bases and no others. So every type that was ever compiled has its own layer first, no layer
twice, and the layers of each ancestor in the ancestor's order. -/
theorem ancestors_ordered (h : Hierarchy cs) {bases : List CompiledType}
    (known : ∀ base ∈ bases, ∃ c ∈ cs, c.compiled = base)
    (distinct : (bases.map fun base => base.own.id).Nodup) (typeName : String) :
    ((∃ order, ancestorsOf typeName bases = .ok order) ↔
      ∃ order : List Layer, (order.map Layer.id).Nodup ∧
        (∀ base ∈ bases, base.layers.Sublist order) ∧
        (bases.map CompiledType.own).Sublist order) ∧
    (∀ order, ancestorsOf typeName bases = .ok order →
      (order.map Layer.id).Nodup ∧
      (∀ layer, layer ∈ order ↔ ∃ base ∈ bases, layer ∈ base.layers) ∧
      (∀ base ∈ bases, base.layers.Sublist order) ∧
      (bases.map CompiledType.own).Sublist order) ∧
    (∀ c ∈ cs, c.compiled.layers.head? = some c.compiled.own ∧
      (c.compiled.layers.map Layer.id).Nodup ∧
      ∀ layer ∈ c.compiled.layers, ∃ d ∈ cs, d.compiled.own = layer ∧
        d.compiled.layers.Sublist c.compiled.layers) ∧
    (∀ c ∈ cs, ∀ d ∈ cs, c.compiled.own.id = d.compiled.own.id → c = d) := by
  have hchain : ∀ base ∈ bases, Chain cs base := by
    intro base hb
    obtain ⟨c, hc, rfl⟩ := known base hb
    exact h.chain hc
  have hspec := fun order (horder : ancestorsOf typeName bases = .ok order) =>
    ancestorsOf_spec (fun base hb other ho l hl m hm =>
      h.layer_eq_of_id (hchain base hb) (hchain other ho) hl hm) horder
  refine ⟨⟨?_, ?_⟩, hspec, ?_, fun c hc d hd hid => h.eq_of_id hc hd hid⟩
  · rintro ⟨order, horder⟩
    obtain ⟨hnodup, _, hbases, howns⟩ := hspec order horder
    exact ⟨order, hnodup, hbases, howns⟩
  · rintro ⟨order, hnodup, hbases, howns⟩
    have hagrees : Linearization.Agrees Layer.id (baseRows bases) (order.map Layer.id) :=
      agrees_baseRows_iff.mpr
        ⟨hnodup, fun base hb => (hbases base hb).map Layer.id, howns.map Layer.id⟩
    obtain ⟨found, hfound⟩ :=
      Option.isSome_iff_exists.mp (Linearization.merge_isSome_iff.mpr ⟨_, hagrees⟩)
    exact ⟨found, ancestorsOf_eq_ok_iff.mpr ⟨distinct, hfound⟩⟩
  · intro c hc
    exact ⟨rfl, (h.chain hc).nodup, (h.chain hc).made⟩

end Hierarchy

/-! ## A diamond

Two types of one name redeclare what they inherit from a common base, each in part, and a fourth
type is built on both. -/

/-- The value of a result that is one. -/
def okValue {ε α : Type} : (x : Except ε α) → x.toBool = true → α
  | .ok a, _ => a

theorem eq_ok_okValue {ε α : Type} {x : Except ε α} (h : x.toBool = true) :
    x = .ok (okValue x h) := by
  cases x with
  | error e => cases h
  | ok a => rfl

/-- The compilation of a specification that can be compiled. -/
def Compilation.ofOk (handlers : HandlerRegistry) (layer : Nat) (spec : TypeSpec)
    (bases : List CompiledType) (h : (compile handlers layer spec bases).toBool = true) :
    Compilation where
  handlers := handlers
  layer := layer
  spec := spec
  bases := bases
  compiled := okValue _ h
  result := eq_ok_okValue h

namespace Diamond

def parts (entries : Entries String Value) : Block :=
  { identity := "Components", entries }

/-- A callable that needs a path. -/
def asking (path : String) : Value :=
  .callable ⟨.given 0, "mode", [path], true, none, .giveArgs⟩

def root : Compilation :=
  .ofOk .builtIn 0
    { name := "Root", blocks := [parts [("x", .int 1)]], members := [("mode", asking "x")] }
    [] (by decide +kernel)

def left : Compilation :=
  .ofOk .builtIn 1 { name := "Side", blocks := [parts [("y", .int 3)]] }
    [root.compiled] (by decide +kernel)

def right : Compilation :=
  .ofOk .builtIn 2
    { name := "Side", blocks := [parts [("x", .int 2)]], members := [("mode", asking "y")] }
    [root.compiled] (by decide +kernel)

def both : Compilation :=
  .ofOk .builtIn 3 { name := "Both", blocks := [parts [("z", .int 4)]] }
    [left.compiled, right.compiled] (by decide +kernel)

theorem hierarchy : Hierarchy [both, right, left, root] := by
  refine .compile (.compile (.compile (.compile .empty ?_ ?_) ?_ ?_) ?_ ?_) ?_ ?_
  · simp
  · simp [root, Compilation.ofOk]
  · simp [root, left, Compilation.ofOk]
  · simp [left, Compilation.ofOk]
  · simp [root, left, right, Compilation.ofOk]
  · simp [right, Compilation.ofOk]
  · simp [root, left, right, both, Compilation.ofOk]
  · simp [both, Compilation.ofOk]

/-- A side is built on the root, and both sides are a part of the last type. -/
theorem root_mem_right : root.compiled.own ∈ right.compiled.ancestors := by
  have hbase := @Hierarchy.base_sublist _ hierarchy right (by simp) _ List.mem_cons_self
  exact hbase.mem List.mem_cons_self

theorem right_mem_both : right.compiled.own ∈ both.compiled.ancestors := by
  have hright : right.compiled ∈ both.bases := List.mem_cons_of_mem _ List.mem_cons_self
  have hbase := @Hierarchy.base_sublist _ hierarchy both (by simp) _ hright
  exact hbase.mem List.mem_cons_self

theorem ancestors_ordered_both :
    left.compiled.layers.Sublist both.compiled.ancestors ∧
    right.compiled.layers.Sublist both.compiled.ancestors ∧
    both.compiled.ancestors.map Layer.id = [1, 2, 0] := by
  have known : ∀ base ∈ [left.compiled, right.compiled],
      ∃ c ∈ [both, right, left, root], c.compiled = base := by
    simp
  obtain ⟨_, hspec, _⟩ := hierarchy.ancestors_ordered known (by decide +kernel) "Both"
  obtain ⟨_, _, hbases, _⟩ := hspec both.compiled.ancestors both.ancestors
  exact ⟨hbases _ List.mem_cons_self, hbases _ (by simp), by decide +kernel⟩

end Diamond

end AppAssembly
