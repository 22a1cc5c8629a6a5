import AppAssembly.Proofs.Unresolved

/-!
# Winning members and their cells

The names of a type come from a walk over its layers that takes each name once, the winning member
from a search for the nearest layer that has the name, and cells are made once, from that walk. The
two agree: there is a cell for every delegate that wins, with the path of that delegate, and for
nothing that hides one (`Instance.Celled`). No move gives or takes a cell, so this stays, and a
look-up never meets a delegate without one (`Hierarchy.cells_match`).
-/

namespace AppAssembly

open Compile Instance

/-! ## Names of a layer -/

/-- A draft has every name once, however many blocks are placed on it. -/
theorem Compile.Draft.TakesAll.nodup_members {handlers : HandlerRegistry} {draft last : Draft}
    {made : List (Declaration × Products)} (h : draft.TakesAll handlers made last)
    (hnodup : draft.members.keys.Nodup) : last.members.keys.Nodup := by
  induction h with
  | done => exact hnodup
  | next first _ ih =>
      refine ih ?_
      rw [first.members]
      exact Entries.nodup_keys_overlay hnodup _

theorem Compilation.nodup_members (c : Compilation) : c.compiled.own.members.keys.Nodup := by
  obtain ⟨made, draft, h⟩ := c.exists_drafted
  rw [h.members]
  exact Entries.nodup_keys_overlay (h.takes.nodup_members List.nodup_nil) _

theorem Hierarchy.nodup_members {cs : List Compilation} (h : Hierarchy cs) {e : Compilation}
    (he : e ∈ cs) {layer : Layer} (hl : layer ∈ e.compiled.layers) : layer.members.keys.Nodup := by
  obtain ⟨c, _, rfl, _⟩ := (h.chain he).made layer hl
  exact c.nodup_members

/-! ## Names of a type -/

namespace CompiledType

/-- Whether a layer has the winning member of a name along some layers. -/
def winsAlong (layers : List Layer) (layer : Layer) (name : String) : Bool :=
  (memberAlong layers name).any fun winner => winner.1.id == layer.id

theorem memberAlong_cons {layer : Layer} {rest : List Layer} (name : String) :
    memberAlong (layer :: rest) name =
      ((layer.member? name).map fun member => (layer, member)).or (memberAlong rest name) := by
  rw [memberAlong, List.findSome?_cons]
  cases layer.member? name <;> rfl

/-- The nearest layer wins all its names and takes them away from the others. -/
theorem winsAlong_cons {first layer : Layer} {rest : List Layer} {name : String} :
    winsAlong (first :: rest) layer name =
      if name ∈ first.members.keys then first.id == layer.id else winsAlong rest layer name := by
  unfold winsAlong
  rw [memberAlong_cons]
  by_cases hname : name ∈ first.members.keys
  · obtain ⟨member, hmember⟩ :=
      Option.isSome_iff_exists.mp ((Entries.get?_isSome_iff first.members name).mpr hname)
    have hfirst : first.member? name = some member := hmember
    rw [if_pos hname, hfirst]
    rfl
  · have hfirst : first.member? name = none :=
      (Entries.get?_eq_none_iff first.members name).mpr hname
    rw [if_neg hname, hfirst]
    rfl

/-- A walk that takes every name once has from each layer the names that this layer wins. -/
theorem firstBy_names {layers : List Layer} (hids : (layers.map Layer.id).Nodup)
    (hkeys : ∀ layer ∈ layers, layer.members.keys.Nodup) :
    firstBy id (layers.flatMap fun layer => layer.members.keys) =
      layers.flatMap fun layer => layer.members.keys.filter (winsAlong layers layer) := by
  induction layers with
  | nil => rfl
  | cons first rest ih =>
      obtain ⟨hfirst, hrest⟩ := List.forall_mem_cons.mp hkeys
      obtain ⟨hnew, hids⟩ := List.nodup_cons.mp hids
      rw [List.flatMap_cons, List.flatMap_cons, firstBy_append, firstBy_id_of_nodup hfirst,
        ih hids hrest, List.filter_flatMap]
      congr 1
      · refine (List.filter_eq_self.mpr fun name hname => ?_).symm
        rw [winsAlong_cons, if_pos hname, beq_self_eq_true]
      · rw [List.map_id]
        refine List.flatMap_congr fun layer hlayer => ?_
        have hne : first.id ≠ layer.id := fun hid => hnew (hid ▸ List.mem_map_of_mem hlayer)
        rw [List.filter_filter]
        refine List.filter_congr fun name _ => ?_
        rw [winsAlong_cons]
        by_cases hname : name ∈ first.members.keys
        · simp [hname, hne]
        · simp [hname]

/-- The walk over the layers finds a name exactly if the search for it finds a member. -/
theorem mem_memberNames_iff {t : CompiledType} {name : String} :
    name ∈ t.memberNames ↔ ∃ layer member, t.member? name = some (layer, member) := by
  constructor
  · intro hname
    obtain ⟨layer, hlayer, hkey⟩ := List.mem_flatMap.mp (mem_of_mem_firstBy hname)
    obtain ⟨member, hmember⟩ :=
      Option.isSome_iff_exists.mp ((Entries.get?_isSome_iff layer.members name).mpr hkey)
    exact exists_member? hlayer hmember
  · rintro ⟨layer, member, hmember⟩
    exact mem_memberNames hmember

end CompiledType

/-! ## Cells -/

namespace Instance

variable {i j : Instance} {name other : String} {d : Delegate}

theorem delegate?_eq_some_iff :
    i.delegate? name = some d ↔ ∃ c, i.cells.get? name = some (d, c) := by
  unfold delegate?
  rw [Option.map_eq_some_iff]
  constructor
  · rintro ⟨⟨own, c⟩, hcell, rfl⟩
    exact ⟨c, hcell⟩
  · rintro ⟨c, hcell⟩
    exact ⟨_, hcell, rfl⟩

/-- A cell is put in the place of one of the same delegate. -/
theorem delegate?_putCell (h : i.delegate? name = some d) (c : Cell) (other : String) :
    (i.putCell name d c).delegate? other = i.delegate? other := by
  unfold delegate?
  rw [get?_putCell]
  split
  · rename_i hother
    subst hother
    exact h.symm
  · rfl

theorem Resolves.delegate?_eq (h : i.Resolves j) (name : String) :
    j.delegate? name = i.delegate? name := by
  unfold delegate?
  rcases h.cells name with hname | ⟨d, v, hwaits, hresolved⟩
  · rw [hname]
  · rw [hwaits, hresolved]
    rfl

theorem delegate?_set (name : String) (v : Value) (i : Instance) (other : String) :
    (Instance.set name v i).2.delegate? other = i.delegate? other := by
  rcases set_cases name v i with ⟨d, c, hcell, hset⟩ | ⟨_, _, hset⟩ | ⟨e, hset⟩
  · rw [hset]
    exact delegate?_putCell (delegate?_eq_some_iff.mpr ⟨c, hcell⟩) (.resolved v) other
  · rw [hset]
    rfl
  · rw [hset]

/-- No move gives or takes a cell. -/
theorem Move.delegate?_eq (h : Move i j) (name : String) : j.delegate? name = i.delegate? name := by
  rcases h.effect with h | ⟨other, v, rfl⟩ | h
  · exact h.delegate?_eq name
  · exact delegate?_set other v i name
  · unfold delegate?
    rw [h.cells]

/-- There is a cell for every delegate that wins, and for no other. -/
def Celled (i : Instance) : Prop :=
  ∀ name d, i.delegate? name = some d ↔
    ∃ layer origin, i.compiled.member? name = some (layer, ⟨.delegate d, origin⟩)

theorem Celled.putCell (hi : i.Celled) (h : i.delegate? name = some d) (c : Cell) :
    (i.putCell name d c).Celled := by
  intro other own
  rw [delegate?_putCell h]
  exact hi other own

theorem Reachable.celled (hi : Reachable i) : i.Celled := by
  induction hi with
  | new t runner made journal =>
      intro name d
      rw [delegate?_eq_some_iff]
      show (∃ c, (freshCells t).get? name = some (d, c)) ↔ _
      simp [freshCells_get?_iff, Instance.ofType]
  | move _ hmove ih =>
      intro name d
      rw [hmove.delegate?_eq, hmove.lasts.compiled]
      exact ih name d

/-! ## The look-up of a delegate without a cell -/

/-- Looks up as `lookup` does, but has an answer of its own for a delegate without a cell. -/
def lookupOr (missing : Except Error (Option Value)) (name : String) (i : Instance) :
    Except Error (Option Value) × Instance :=
  match i.attrs.get? name with
  | some v => (.ok (some v), i)
  | none =>
      match i.compiled.member? name with
      | none | some (_, ⟨.deferred, _⟩) => (.ok none, i)
      | some (_, ⟨.value v, _⟩) => (.ok (some v), i)
      | some (_, ⟨.delegate _, _⟩) =>
          match _h : i.cells.get? name with
          | none => (missing, i)
          | some (d, c) =>
              match _hc : d.answer? c with
              | some answer => (answer.map some, i)
              | none =>
                  let path := Path.ofText d.path
                  let begun := i.putCell name d .resolving
                  let (first, j) :=
                    if path.head = "" then (.ok none, begun) else lookupOr missing path.head begun
                  let (answer, c) := d.settle (first.bind (path.follow i.describe)) (j.cell name)
                  (answer.map some, j.putCell name d c)
termination_by i.waiting
decreasing_by exact waiting_putCell_lt _h _hc

theorem lookupOr_celled {missing : Except Error (Option Value)} {layer : Layer} {own : Delegate}
    {origin : Origin} {c : Cell} (hattrs : i.attrs.get? name = none)
    (hmember : i.compiled.member? name = some (layer, ⟨.delegate own, origin⟩))
    (hcell : i.cells.get? name = some (d, c)) :
    lookupOr missing name i =
      match d.answer? c with
      | some answer => (answer.map some, i)
      | none =>
          let path := Path.ofText d.path
          let begun := i.putCell name d .resolving
          let first :=
            if path.head = "" then (.ok none, begun) else lookupOr missing path.head begun
          let outcome := d.settle (first.1.bind (path.follow i.describe)) (first.2.cell name)
          (outcome.1.map some, first.2.putCell name d outcome.2) := by
  rw [lookupOr]
  simp only [hattrs, hmember]
  split
  · rename_i hnone
    rw [hcell] at hnone
    cases hnone
  · rename_i hsome
    rw [hcell] at hsome
    cases hsome
    split
    · rename_i hanswer
      rw [hanswer]
    · rename_i hanswer
      rw [hanswer]

/-- What a delegate without a cell would answer makes no difference where there is none. -/
theorem lookupOr_eq {missing : Except Error (Option Value)} (h : missing = .ok none ∨ i.Celled) :
    lookupOr missing name i = lookup name i := by
  fun_induction lookup name i with
  | case1 name i v hattrs => simp only [lookupOr, hattrs]
  | case2 name i hattrs hmember => simp only [lookupOr, hattrs, hmember]
  | case3 name i hattrs layer origin hmember => simp only [lookupOr, hattrs, hmember]
  | case4 name i hattrs layer v origin hmember => simp only [lookupOr, hattrs, hmember]
  | case5 name i hattrs layer own origin hmember hcell =>
      rcases h with rfl | hi
      · rw [lookupOr]
        simp only [hattrs, hmember]
        split
        · rfl
        · rename_i hsome
          rw [hcell] at hsome
          cases hsome
      · -- the winner is a delegate, so it has a cell
        obtain ⟨c, hsome⟩ := delegate?_eq_some_iff.mp ((hi _ _).mpr ⟨layer, origin, hmember⟩)
        rw [hcell] at hsome
        cases hsome
  | case6 name i hattrs layer own origin hmember d c hcell answer hanswer =>
      rw [lookupOr_celled hattrs hmember hcell, hanswer]
  | case7 name i hattrs layer own origin hmember d c hcell hanswer path begun first j hfirst
      answer c' hsettle ih =>
      -- the look-up goes on from the cell that was just marked, which stays a cell
      have hbegun : missing = .ok none ∨ begun.Celled :=
        h.imp_right fun hi => hi.putCell (delegate?_eq_some_iff.mpr ⟨c, hcell⟩) .resolving
      have hhead :
          (if path.head = "" then (.ok none, begun) else lookupOr missing path.head begun) =
            (first, j) := by
        rw [ih hbegun]
        exact hfirst
      rw [lookupOr_celled hattrs hmember hcell, hanswer]
      dsimp only
      rw [hhead, hsettle]

end Instance

/-! ## Types of a hierarchy -/

/-- Cells match winning members. A type of a hierarchy lists each name that has a member once, layer
by layer, at the layer that wins it. A new instance has a waiting cell for every name whose winning
member is a delegate, with this delegate, and no other. At any later moment it has cells for the
same delegates, none where something else hides a delegate, and a look-up never asks what a delegate
without a cell answers, which is all that `lookupOr` could have otherwise. -/
theorem Hierarchy.cells_match {cs : List Compilation} (h : Hierarchy cs) {e : Compilation}
    (he : e ∈ cs) :
    e.compiled.memberNames.Nodup ∧
    (∀ name, name ∈ e.compiled.memberNames ↔
      ∃ layer member, e.compiled.member? name = some (layer, member)) ∧
    (e.compiled.memberNames = e.compiled.layers.flatMap fun layer =>
      layer.members.keys.filter (CompiledType.winsAlong e.compiled.layers layer)) ∧
    (∀ runner workshop name d c,
      (Instance.ofType e.compiled runner workshop).cells.get? name = some (d, c) ↔
        c = .unresolved ∧
          ∃ layer origin, e.compiled.member? name = some (layer, ⟨.delegate d, origin⟩)) ∧
    (∀ i, Reachable i → i.compiled = e.compiled →
      (∀ name d, i.delegate? name = some d ↔
        ∃ layer origin, e.compiled.member? name = some (layer, ⟨.delegate d, origin⟩)) ∧
      (∀ name layer member, e.compiled.member? name = some (layer, member) →
        (∀ d, member.content ≠ .delegate d) → i.cells.get? name = none) ∧
      ∀ missing name, lookupOr missing name i = lookup name i) ∧
    ∀ name i, lookupOr (.ok none) name i = lookup name i := by
  have hkeys : ∀ layer ∈ e.compiled.layers, layer.members.keys.Nodup :=
    fun layer hlayer => h.nodup_members he hlayer
  refine ⟨?_, fun name => CompiledType.mem_memberNames_iff,
    CompiledType.firstBy_names (h.chain he).nodup hkeys,
    fun runner workshop name d c => freshCells_get?_iff, ?_, fun name i => lookupOr_eq (.inl rfl)⟩
  · have hnodup := nodup_map_firstBy id (e.compiled.layers.flatMap fun layer => layer.members.keys)
    rw [List.map_id] at hnodup
    exact hnodup
  · intro i hi hcompiled
    rw [← hcompiled]
    refine ⟨hi.celled, fun name layer member hwins hother => ?_, fun missing name =>
      lookupOr_eq (.inr hi.celled)⟩
    cases hcell : i.cells.get? name with
    | none => rfl
    | some entry =>
        obtain ⟨d, c⟩ := entry
        obtain ⟨_, _, hdelegate⟩ := (hi.celled name d).mp (delegate?_eq_some_iff.mpr ⟨c, hcell⟩)
        rw [hwins] at hdelegate
        cases hdelegate
        exact absurd rfl (hother d)

/-! ## Delegates in the shade

The base delegates four methods. One line puts a value, a suppression and a custom object over three
of them, the other delegates the fourth to somewhere else. -/

namespace Shade

def base : Compilation :=
  .ofOk .builtIn 0
    { name := "Base"
      blocks := [{ identity := "Methods", entries := [("go", .str "tools.go"),
        ("halt", .str "tools.halt"), ("rest", .str "tools.rest"), ("turn", .str "tools.turn")] }] }
    [] (by decide +kernel)

def couch : Factory :=
  ⟨.given 0, "Couch", [], [], none, .constant (.int 3)⟩

def left : Compilation :=
  .ofOk .builtIn 1
    { name := "Left"
      blocks := [{ identity := "Rest", mainType := some couch },
        { identity := "Methods", entries := [("halt", .null)] }]
      members := [("go", .int 5)] }
    [base.compiled] (by decide +kernel)

def right : Compilation :=
  .ofOk .builtIn 2
    { name := "Right"
      blocks := [{ identity := "Methods", entries := [("turn", .str "wheels.turn")] }] }
    [base.compiled] (by decide +kernel)

def both : Compilation :=
  .ofOk .builtIn 3
    { name := "Both", blocks := [{ identity := "Attrs", entries := [("wheels", .int 4)] }] }
    [left.compiled, right.compiled] (by decide +kernel)

theorem hierarchy : Hierarchy [both, right, left, base] := by
  refine .compile (.compile (.compile (.compile .empty ?_ ?_) ?_ ?_) ?_ ?_) ?_ ?_
  · simp
  · simp [base, Compilation.ofOk]
  · simp [base, left, Compilation.ofOk]
  · simp [left, Compilation.ofOk]
  · simp [base, left, right, Compilation.ofOk]
  · simp [right, Compilation.ofOk]
  · simp [base, left, right, both, Compilation.ofOk]
  · simp [both, Compilation.ofOk]

/-- An instance after its only delegate was looked up, in vain. -/
def looked : Instance :=
  (Instance.get "turn" (Instance.ofType both.compiled)).2

theorem reachable_looked : Reachable looked :=
  (Reachable.ofType both.compiled).move (.get _ "turn")

/-- Whether the winning member of a name is something else than a delegate. -/
def hidden (name : String) : Bool :=
  match both.compiled.member? name with
  | some (_, ⟨.value _, _⟩) | some (_, ⟨.deferred, _⟩) => true
  | _ => false

theorem exists_hiding {name : String} (h : hidden name = true) : ∃ layer member,
    both.compiled.member? name = some (layer, member) ∧ ∀ d, member.content ≠ .delegate d := by
  unfold hidden at h
  split at h
  · rename_i layer v origin hwins
    exact ⟨layer, _, hwins, by simp⟩
  · rename_i layer origin hwins
    exact ⟨layer, _, hwins, by simp⟩
  · cases h

theorem cells_match_looked :
    both.compiled.memberNames = ["wheels", "halt", "rest", "go", "turn"] ∧
    (∃ layer origin, both.compiled.member? "turn" =
      some (layer, ⟨.delegate ⟨"turn", "wheels.turn", ⟨"Right.Methods", none⟩⟩, origin⟩)) ∧
    (∀ name ∈ ["go", "halt", "rest"], looked.cells.get? name = none) ∧
    ∀ missing, lookupOr missing "turn" looked = lookup "turn" looked := by
  have hlooked : looked.compiled = both.compiled :=
    (get_resolves "turn" (Instance.ofType both.compiled)).lasts.compiled
  obtain ⟨_, _, _, _, hcells, _⟩ := hierarchy.cells_match List.mem_cons_self
  obtain ⟨hdelegates, hshaded, hlookup⟩ := hcells looked reachable_looked hlooked
  refine ⟨by decide +kernel, (hdelegates "turn" _).mp (by decide +kernel), fun name hname => ?_,
    fun missing => hlookup missing "turn"⟩
  have hhidden : ∀ name ∈ ["go", "halt", "rest"], hidden name = true := by
    decide +kernel
  obtain ⟨layer, member, hwins, hother⟩ := exists_hiding (hhidden name hname)
  exact hshaded name layer member hwins hother

end Shade

end AppAssembly
