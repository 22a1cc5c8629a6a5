import AppAssembly.Proofs.Creation
import AppAssembly.Proofs.Failures

/-!
# Unresolved names

A sanity check comes by checkers and methods with the bare name that is on record, and reads it as a
path. Something stands under every name that has a winning member, from the moment on at which
things are created, and no move takes it away (`Becomes.bears`). So a plain name is found, or its
look-up accuses a delegate; and whatever else a bootstrap can't find is reported together with the
declaration behind it (`Blames`). What blocks record they also put on the type, so for types of the
built-in handlers being plain is all that is asked of a name. Nothing keeps a checker from being
declared under a name that reads as a longer path, though, and then nobody is blamed.
-/

namespace AppAssembly

open Compile Instance

/-! ## Names that are sought -/

/-- The names by which a sanity check comes on behalf of a layer. -/
def Ledger.sought (l : Ledger) : List String :=
  l.checkers.map Checker.identity ++ l.methods.map Method.identity

namespace CompiledType

/-- The names by which a sanity check comes. -/
def sought (t : CompiledType) : List String :=
  t.checkers.map Checker.identity ++ t.methods.map Method.identity

/-- A name that leads to an attribute: it is no path, and it has a winning member, which is built if
it is deferred. -/
structure Names (t : CompiledType) (name : String) : Prop where
  plain : isPlain name = true
  wins : ∃ layer member, t.member? name = some (layer, member) ∧
    (member.content = .deferred → name ∈ t.deferred.map Deferred.identity)

theorem exists_layer_of_mem_sought {t : CompiledType} {name : String} (h : name ∈ t.sought) :
    ∃ layer ∈ t.layers, name ∈ layer.ledger.sought := by
  unfold sought at h
  rcases List.mem_append.mp h with h | h
  · obtain ⟨checker, hchecker, rfl⟩ := List.mem_map.mp h
    have hrecorded := mem_of_mem_firstBy (List.mem_filter.mp hchecker).1
    obtain ⟨layer, hlayer, hmem⟩ := List.mem_flatMap.mp hrecorded
    exact ⟨layer, hlayer, List.mem_append_left _ (List.mem_map_of_mem hmem)⟩
  · obtain ⟨method, hmethod, rfl⟩ := List.mem_map.mp h
    obtain ⟨layer, hlayer, hmem⟩ := List.mem_flatMap.mp (mem_of_mem_firstBy hmethod)
    exact ⟨layer, hlayer, List.mem_append_right _ (List.mem_map_of_mem hmem)⟩

theorem exists_member? {t : CompiledType} {name : String} {layer : Layer} {own : Member}
    (hlayer : layer ∈ t.layers) (h : layer.member? name = some own) :
    ∃ owner member, t.member? name = some (owner, member) := by
  obtain ⟨owner, hfind⟩ : ∃ owner, t.layers.find? (fun l => (l.member? name).isSome) = some owner :=
    Option.isSome_iff_exists.mp (List.find?_isSome.mpr ⟨_, hlayer, Option.isSome_of_eq_some h⟩)
  have howner := List.find?_some hfind
  obtain ⟨member, hmember⟩ := Option.isSome_iff_exists.mp howner
  exact ⟨owner, member, member?_eq_some_iff.mpr ⟨hfind, hmember⟩⟩

theorem mem_memberNames {t : CompiledType} {name : String} {layer : Layer} {member : Member}
    (h : t.member? name = some (layer, member)) : name ∈ t.memberNames := by
  obtain ⟨hfind, hmember⟩ := member?_eq_some_iff.mp h
  have hkey : name ∈ layer.members.keys :=
    (Entries.get?_isSome_iff _ _).mp (Option.isSome_of_eq_some hmember)
  exact mem_firstBy_id.mpr (List.mem_flatMap.mpr ⟨layer, List.mem_of_find?_eq_some hfind, hkey⟩)

end CompiledType

/-! ## Names that something stands under -/

namespace Instance

variable {i j : Instance} {name : String} {e : Error}

/-- A new instance has a waiting cell exactly for the delegates among the winning members. -/
theorem freshCells_get?_iff {t : CompiledType} {d : Delegate} {c : Cell} :
    (freshCells t).get? name = some (d, c) ↔
      c = .unresolved ∧ ∃ layer origin, t.member? name = some (layer, ⟨.delegate d, origin⟩) := by
  refine ⟨freshCells_get? t name, ?_⟩
  rintro ⟨rfl, layer, origin, hmember⟩
  have hentry : (name, d, .unresolved) ∈ freshCells t := by
    refine List.mem_filterMap.mpr ⟨name, CompiledType.mem_memberNames hmember, ?_⟩
    rw [hmember]
  obtain ⟨⟨own, c⟩, hcell⟩ := Option.isSome_iff_exists.mp
    ((Entries.get?_isSome_iff (freshCells t) name).mpr (List.mem_map_of_mem hentry))
  -- whatever cell is found is that of the winner
  obtain ⟨rfl, _, _, hown⟩ := freshCells_get? t name hcell
  rw [hmember] at hown
  cases hown
  exact hcell

/-- Something stands under a name: a value that was placed, a delegate with its cell, or a plain
member. -/
inductive Bears (i : Instance) (name : String) : Prop where
  | placed {v : Value} (h : i.attrs.get? name = some v)
  | celled {d : Delegate} {c : Cell} (h : i.cells.get? name = some (d, c))
  | member {layer : Layer} {v : Value} {origin : Origin}
      (h : i.compiled.member? name = some (layer, ⟨.value v, origin⟩))

theorem Bears.lookup_ne_none (h : i.Bears name) (hi : i.Exposed) :
    (lookup name i).1 ≠ .ok none := by
  have hmap : ∀ r : Except Error Value, r.map some ≠ .ok none := by
    intro r hr
    cases r <;> cases hr
  rcases hcell : i.cells.get? name with _ | ⟨d, c⟩
  · rw [lookup_bare hcell]
    cases h with
    | placed h => simp [h]
    | celled h => cases hcell.symm.trans h
    | member h => cases hattrs : i.attrs.get? name <;> simp [h]
  · rw [lookup_cell hi hcell]
    split
    · exact hmap _
    · exact hmap _

/-- What stands under a plain name is found, unless a delegate on the way fails. -/
theorem Bears.accuses (h : i.Bears name) (hi : i.Exposed) (hplain : isPlain name = true)
    (he : (get name i).1 = .error e) : e.Accuses := by
  have hne : name ≠ "" := by
    rintro rfl
    cases hplain
  rcases hlookup : lookup name i with ⟨other | _ | v, j⟩
  · rw [get_apply, Path.ofText_of_isPlain hplain, seek_of_ne hne, hlookup] at he
    cases he
    exact accuses_of_lookup (congrArg Prod.fst hlookup)
  · exact absurd (congrArg Prod.fst hlookup) (h.lookup_ne_none hi)
  · rw [get_of_lookup hplain hlookup] at he
    cases he

/-! ## What moves do to it -/

theorem Bears.resolves (h : i.Bears name) (hj : i.Resolves j) : j.Bears name := by
  have hattrs : j.attrs = i.attrs := by rw [hj.rest]
  cases h with
  | placed h => exact .placed (hattrs ▸ h)
  | celled h =>
      rcases hj.cells name with hsame | ⟨_, _, _, hresolved⟩
      · exact .celled (hsame.trans h)
      · exact .celled hresolved
  | member h => exact .member (hj.lasts.compiled ▸ h)

theorem Bears.set (h : i.Bears name) (other : String) (v : Value) :
    (Instance.set other v i).2.Bears name := by
  by_cases hname : other = name
  · subst hname
    rcases set_cases other v i with ⟨d, c, _, hset⟩ | ⟨_, _, hset⟩ | ⟨e, hset⟩
    · rw [hset]
      exact .celled (Entries.get?_insert_self _ _ _)
    · rw [hset]
      exact .placed (Entries.get?_insert_self _ _ _)
    · rw [hset]
      exact h
  · have hspares := spares_set v hname i
    cases h with
    | placed h => exact .placed (hspares.attrs.trans h)
    | celled h => exact .celled (hspares.cells.trans h)
    | member h => exact .member (hspares.compiled ▸ h)

theorem Bears.places (h : i.Bears name) (hj : i.Places j) (hawaits : i.awaits name = false) :
    j.Bears name := by
  cases h with
  | placed h => exact .placed ((hj.attrs name hawaits).trans h)
  | celled h => exact .celled (hj.cells ▸ h)
  | member h => exact .member (hj.compiled ▸ h)

/-- A move takes nothing away from under a name that awaits nothing. -/
theorem Move.bears (hmove : Move i j) (hawaits : i.awaits name = false) (h : i.Bears name) :
    j.Bears name := by
  rcases hmove.effect with hj | ⟨other, v, rfl⟩ | hj
  · exact h.resolves hj
  · exact h.set other v
  · exact h.places hj hawaits

/-- Once things were created no name awaits anything. -/
theorem awaits_of_materialized (h : i.materialized = true) (name : String) :
    i.awaits name = false := by
  rw [Bool.eq_false_iff]
  intro hawaits
  cases h.symm.trans (awaits_eq_true_iff.mp hawaits).1

/-- Once things were created, nothing is ever taken away from under a name. -/
theorem Becomes.bears (hrun : i.Becomes j) (hcreated : i.materialized = true)
    (h : i.Bears name) : j.Bears name := by
  induction hrun with
  | refl => exact h
  | @tail k l hbefore hmove ih =>
      have hk : i.Becomes k := hbefore
      exact hmove.bears (awaits_of_materialized (hk.lasts.materialized hcreated) name) ih

/-- Something stands at any moment under a name whose winning member is not deferred. -/
theorem Reachable.bears (hi : Reachable i) {layer : Layer} {member : Member}
    (hmember : i.compiled.member? name = some (layer, member))
    (hnow : member.content ≠ .deferred) : i.Bears name := by
  obtain ⟨content, origin⟩ := member
  induction hi with
  | new t runner made journal =>
      cases content with
      | value v => exact .member hmember
      | deferred => exact absurd rfl hnow
      | delegate d =>
          exact .celled (freshCells_get?_iff.mpr ⟨rfl, layer, origin, hmember⟩)
  | @move i j _ hmove ih =>
      rw [hmove.lasts.compiled] at hmember
      have hawaits : i.awaits name = false := by
        unfold awaits
        rw [hmember]
        cases content with
        | deferred => exact absurd rfl hnow
        | value _ | delegate _ => rfl
      exact hmove.bears hawaits (ih hmember)

/-- Something stands under every name of an attribute once things are created. -/
theorem bears_of_created {make : Builder} (hi : Reachable i)
    (hok : (createThings make i).1 = .ok ()) (h : i.compiled.Names name) :
    (createThings make i).2.Bears name := by
  obtain ⟨layer, member, hmember, hbuilt⟩ := h.wins
  by_cases hdeferred : member.content = .deferred
  · obtain ⟨item, hitem, rfl⟩ := List.mem_map.mp (hbuilt hdeferred)
    obtain ⟨_, _, _, _, _, hplaced⟩ := placed_of_mem_deferred hok hitem
    exact .placed hplaced
  · have hmember' := (createThings_lasts make i).compiled ▸ hmember
    exact (hi.move (.createThings i make)).bears hmember' hdeferred

/-! ## The moments of a bootstrap -/

section

variable {eval : Evaluator} (heval : eval.Free)
include heval

/-- An errand that goes by a name is run once things were created. -/
theorem moment_of_attribute {errand : Errand} (hmem : (errand, j) ∈ i.course eval)
    (hname : errand.attribute? = some name) :
    (createThings eval.make i).1 = .ok () ∧ name ∈ i.compiled.sought ∧
      (createThings eval.make i).2.Becomes j := by
  have hfront : errand ∉ i.compiled.creating := by
    intro hcreating
    simp only [CompiledType.creating, List.mem_cons, List.mem_append, List.mem_map,
      List.not_mem_nil, or_false] at hcreating
    rcases hcreating with rfl | ⟨_, _, rfl⟩ | rfl <;> cases hname
  rw [course, CompiledType.agenda, List.append_assoc, Act.course_append, ← createThings_eq] at hmem
  rcases List.mem_append.mp hmem with hmem | hmem
  · exact absurd ((Act.course_begins _ _ _).mem (List.mem_map_of_mem hmem)) hfront
  · rcases hrun : createThings eval.make i with ⟨e | _, k⟩
    · simp [hrun] at hmem
    · simp only [hrun] at hmem
      have hlater := (Act.course_begins _ _ _).mem (List.mem_map_of_mem hmem)
      have hkeeps : ∀ later ∈ i.compiled.validating ++ i.compiled.installing,
          (later.perform eval).Keeps Becomes := fun later hlater =>
        later.perform_becomes heval (CompiledType.step_of_mem_later hlater)
      refine ⟨rfl, ?_, (Act.course_keeps hkeeps _ hmem).1⟩
      simp only [CompiledType.validating, CompiledType.installing, List.mem_append, List.mem_cons,
        List.mem_flatMap, List.mem_map, List.not_mem_nil, or_false] at hlater
      unfold CompiledType.sought
      rcases hlater with (rfl | ((⟨_, _, _, _, rfl⟩ | ⟨checker, hchecker, rfl⟩) |
        ⟨method, hmethod, rfl⟩) | rfl) | (rfl | ⟨_, _, rfl⟩ | rfl) <;> cases hname
      · exact List.mem_append_left _ (List.mem_map_of_mem hchecker)
      · exact List.mem_append_right _ (List.mem_map_of_mem hmethod)

/-- A name that leads to an attribute is found when it is its turn, or a delegate is blamed. -/
theorem accuses_of_moment (hi : Reachable i) {errand : Errand}
    (hmem : (errand, j) ∈ i.course eval) (hname : errand.attribute? = some name)
    (hnames : i.compiled.Names name) (he : (get name j).1 = .error e) : e.Accuses := by
  obtain ⟨hok, _, hrun⟩ := moment_of_attribute heval hmem hname
  have hcreated := createThings_materialized hok
  have hbears := hrun.bears hcreated (bears_of_created hi hok hnames)
  have hj := (hi.move (.createThings i eval.make)).becomes hrun
  exact hbears.accuses hj.exposed hnames.plain he

/-- How a bootstrap can fail if native code does not. -/
theorem bootstrap_error (he : (Instance.bootstrap eval i).1 = .error e)
    (hraises : ∀ m ∈ i.trace eval, ¬ m.1.Raises eval m.2 e) :
    e.Accuses ∨ (∃ phase misstep, e = .lifecycle phase misstep) ∨
      ∃ m ∈ i.course eval, ∃ name, m.1.attribute? = some name ∧ (get name m.2).1 = .error e := by
  rw [bootstrap_eq heval] at he
  obtain ⟨errand, j, hmem, hfailed⟩ := Act.exists_failed he
  rcases errand.perform_error hfailed with haccuses | hlifecycle | ⟨m, hm, hraised⟩ |
    ⟨name, _, hname, hget, _⟩
  · exact .inl haccuses
  · exact .inr (.inl hlifecycle)
  · exact absurd hraised (hraises m (List.mem_flatMap.mpr ⟨_, hmem, hm⟩))
  · exact .inr (.inr ⟨_, hmem, name, hname, hget⟩)

end

/-- Who is blamed when a bootstrap fails. -/
structure Blames (eval : Evaluator) (i : Instance) : Prop where
  /-- If every name that is sought leads to an attribute, a failure that is not one of native code
  is an accusation, or a step came at the wrong point. -/
  accuses : (∀ name ∈ i.compiled.sought, i.compiled.Names name) → ∀ e,
    (Instance.bootstrap eval i).1 = .error e → (∀ m ∈ i.trace eval, ¬ m.1.Raises eval m.2 e) →
      e.Accuses ∨ ∃ phase misstep, e = .lifecycle phase misstep
  /-- The bare report on a path that leads nowhere is that on a name that is sought, at the moment
  when it is its turn. -/
  bare_iff : ∀ missing, (∀ m ∈ i.trace eval, ¬ m.1.Raises eval m.2 (.pathNotFound missing)) →
    ((Instance.bootstrap eval i).1 = .error (.pathNotFound missing) ↔
      ∃ m ∈ i.course eval, ∃ name, m.1.attribute? = some name ∧
        (get name m.2).1 = .error (.pathNotFound missing))

theorem blames {eval : Evaluator} (heval : eval.Free) (hi : Reachable i) : i.Blames eval where
  accuses := by
    intro hnames e he hraises
    rcases bootstrap_error heval he hraises with haccuses | hlifecycle |
      ⟨⟨errand, j⟩, hmem, name, hname, hget⟩
    · exact .inl haccuses
    · exact .inr hlifecycle
    · obtain ⟨_, hsought, _⟩ := moment_of_attribute heval hmem hname
      exact .inl (accuses_of_moment heval hi hmem hname (hnames name hsought) hget)
  bare_iff := by
    intro missing hraises
    constructor
    · intro he
      rcases bootstrap_error heval he hraises with haccuses | ⟨_, _, hlifecycle⟩ | hlost
      · cases haccuses.isPathNotFound
      · cases hlifecycle
      · exact hlost
    · rintro ⟨⟨errand, j⟩, hmem, name, hname, hget⟩
      rw [bootstrap_eq heval]
      obtain ⟨before, after, hsplit⟩ := List.append_of_mem hmem
      have hfailed : (errand.perform eval j).1 = _ := Errand.perform_unfound hname hget
      exact (Act.stops_course _ _ _ before (errand, j) after _ hsplit hfailed).2

end Instance

/-! ## Names that blocks record -/

section

variable {d : Declaration} {l after : Ledger} {products : Products}

/-- What a built-in handler records to be sought it also puts on the type. -/
theorem Handler.sought_of_handle {handler : Handler}
    (hfind : d.block.kind.handler? = some handler)
    (h : handler.handle d l = .ok (products, after)) :
    ∀ name ∈ after.sought, name ∈ l.sought ∨ name ∈ Entries.keys products := by
  have hkeys : d.block.kind.putsEntries = true →
      Entries.keys products = Entries.keys d.entriesOverNulls := by
    intro hputs
    rw [(handle_contributes hfind h).1, Declaration.products_of_putsEntries hputs]
    simp [Entries.keys, Function.comp_def]
  cases hkind : d.block.kind <;> rw [hkind] at hfind hkeys <;> cases hfind
  case attrs =>
    cases h
    exact fun name hname => .inl hname
  case checkers =>
    unfold checkers at h
    dsimp only at h
    split at h
    · cases h
    rw [foldl_recordChecker] at h
    cases h
    intro name hname
    rw [hkeys rfl]
    simp only [Ledger.sought, Ledger.recordRemoved, List.map_append, List.map_map,
      List.mem_append] at hname ⊢
    rcases hname with (hname | hname) | hname
    · exact .inl (.inl hname)
    · exact .inr hname
    · exact .inl (.inr hname)
  case components =>
    unfold components at h
    dsimp only at h
    rw [recordComponentFactories_eq] at h
    cases h
    exact fun name hname => .inl hname
  case install | installers =>
    unfold installersNamed Ledger.setInstallers at h
    dsimp only at h
    split at h
    · cases h
    split at h
    · rename_i hset
      split at hset
      · cases hset
      cases hset
      cases h
      exact fun name hname => .inl hname
    · cases h
  case methods =>
    unfold methods at h
    dsimp only at h
    split at h
    · cases h
    rw [foldl_recordMethod] at h
    cases h
    intro name hname
    rw [hkeys rfl]
    simp only [Ledger.sought, Ledger.recordRemoved, List.map_append, List.map_map,
      List.mem_append] at hname ⊢
    rcases hname with hname | hname | hname
    · exact .inl (.inl hname)
    · exact .inl (.inr hname)
    · refine .inr ?_
      simpa [Function.comp_def] using hname
  case requires =>
    unfold requires at h
    dsimp only at h
    rw [foldl_recordSuppression] at h
    split at h
    · rename_i hrecorded
      cases h
      rw [recordRequired_eq_ok hrecorded]
      exact fun name hname => .inl hname
    · cases h

theorem Compile.Draft.Takes.sought {draft next : Draft}
    (h : draft.Takes .builtIn d products next) :
    ∀ name ∈ next.ledger.sought, name ∈ draft.ledger.sought ∨ name ∈ Entries.keys products := by
  obtain ⟨after, hanswers, hledger⟩ := h.exists_answers
  have hnext : next.ledger.sought = after.sought := by
    rw [hledger]
    rfl
  rw [hnext]
  cases hanswers with
  | handled found handled =>
      rw [HandlerRegistry.find?_builtIn] at found
      exact Handler.sought_of_handle found handled
  | described unknown described =>
      rw [Ledger.recordFactory_eq]
      exact fun name hname => .inl hname

theorem Compile.Draft.TakesAll.sought {draft last : Draft} {made : List (Declaration × Products)}
    (h : draft.TakesAll .builtIn made last) :
    ∀ name ∈ last.ledger.sought, name ∈ draft.ledger.sought ∨
      ∃ entry ∈ made, name ∈ Entries.keys entry.2 := by
  induction h with
  | done => exact fun name hname => .inl hname
  | next first _ ih =>
      intro name hname
      rcases ih name hname with hname | ⟨entry, hentry, hkey⟩
      · exact (first.sought name hname).imp_right fun hkey => ⟨_, List.mem_cons_self, hkey⟩
      · exact .inr ⟨entry, List.mem_cons_of_mem _ hentry, hkey⟩

end

/-- A layer has a member under every name that is sought on its behalf. -/
theorem Compilation.member?_of_sought {c : Compilation} (hplain : c.Plain) {name : String}
    (h : name ∈ c.compiled.own.ledger.sought) :
    ∃ member, c.compiled.own.member? name = some member := by
  obtain ⟨made, draft, hdrafted⟩ := c.exists_drafted
  have htakes := hdrafted.takes
  rw [hplain.builtIn] at htakes
  rw [hdrafted.ledger] at h
  rcases htakes.sought name h with hwritten | ⟨⟨d, products⟩, hmem, hkey⟩
  · have hstart : (Draft.start c.spec).ledger = {} := hplain.unwritten
    rw [hstart] at hwritten
    cases hwritten
  · obtain ⟨_, content, _, hmember⟩ := hdrafted.member?_made hmem hkey
    exact ⟨_, hmember⟩

/-- A name that is sought leads to an attribute exactly if it is no path. -/
theorem Hierarchy.names_iff {cs : List Compilation} (h : Hierarchy cs)
    (hplain : ∀ d ∈ cs, d.Plain) {c : Compilation} (hc : c ∈ cs) {name : String}
    (hname : name ∈ c.compiled.sought) : c.compiled.Names name ↔ isPlain name = true := by
  refine ⟨CompiledType.Names.plain, fun hname' => ⟨hname', ?_⟩⟩
  obtain ⟨layer, hlayer, hrecorded⟩ := CompiledType.exists_layer_of_mem_sought hname
  obtain ⟨d, hd, rfl, _⟩ := (h.chain hc).made layer hlayer
  obtain ⟨own, hown⟩ := Compilation.member?_of_sought (hplain d hd) hrecorded
  obtain ⟨owner, member, hwins⟩ := CompiledType.exists_member? hlayer hown
  refine ⟨owner, member, hwins, fun hdeferred => ?_⟩
  obtain ⟨content, origin⟩ := member
  obtain rfl : content = .deferred := hdeferred
  obtain ⟨item, hitem, rfl, _⟩ := (h.defersOnce hplain hc).exists_deferred hwins
  exact List.mem_map_of_mem hitem

/-- Whatever can't be found during a bootstrap is reported together with the declaration behind it,
as long as the names of checkers and methods lead to attributes. At any moment and whatever native
code does in between: unless native code returns the error itself, a bootstrap fails with an
accusation or since a step came at the wrong point; and a bare report comes from nothing but a
checker or method whose name leads nowhere. On types of the built-in handlers that is a name which
reads as a longer path, or is empty. -/
theorem Hierarchy.unresolved_blamed {cs : List Compilation} (h : Hierarchy cs) {c : Compilation}
    (hc : c ∈ cs) {eval : Evaluator} (heval : eval.Free) {i : Instance} (hi : Reachable i)
    (hcompiled : i.compiled = c.compiled) :
    i.Blames eval ∧
    ((∀ d ∈ cs, d.Plain) → ∀ name ∈ i.compiled.sought,
      (i.compiled.Names name ↔ isPlain name = true)) := by
  refine ⟨Instance.blames heval hi, fun hplain name hname => ?_⟩
  rw [hcompiled] at hname ⊢
  exact h.names_iff hplain hc hname

/-! ## Two checkers

The checker of the first type asks for a path that leads nowhere. The one of the other type asks for
nothing, but its name reads as a path. -/

namespace Accused

/-- A checker that asks for some paths and passes. -/
def ready (requires : List String) : Callable :=
  ⟨.given 0, "ready", requires, true, none, .give .null⟩

def machine (identity : String) (requires : List String) : TypeSpec :=
  { name := "Machine"
    blocks := [{ identity := "Checkers", entries := [(identity, .callable (ready requires))] }] }

def asking : Compilation :=
  .ofOk .builtIn 0 (machine "ready" ["disk.size"]) [] (by decide +kernel)

def dotted : Compilation :=
  .ofOk .builtIn 0 (machine "disk.ready" []) [] (by decide +kernel)

theorem hierarchy_asking : Hierarchy [asking] :=
  .compile .empty (by simp) (by simp [asking, Compilation.ofOk])

theorem hierarchy_dotted : Hierarchy [dotted] :=
  .compile .empty (by simp) (by simp [dotted, Compilation.ofOk])

/-- What the checker asks for is missing, and the checkers block is blamed for it. -/
theorem unresolved_blamed_asking :
    ∃ e, (Instance.bootstrap native (Instance.ofType asking.compiled)).1 = .error e ∧
      e.Accuses ∧ e.accused? = some "Machine.Checkers" := by
  let start : Instance := Instance.ofType asking.compiled
  have hstart : Reachable start := .ofType asking.compiled
  obtain ⟨hblames, hnames⟩ :=
    hierarchy_asking.unresolved_blamed List.mem_cons_self native_free hstart rfl
  have hplain : ∀ d ∈ [asking], d.Plain := by
    rintro d (_ | ⟨_, ⟨⟩⟩)
    exact ⟨rfl, rfl⟩
  have hfailed : (Instance.bootstrap native start).1 = .error (.requirement .requires
      ⟨"disk.size", "<Machine instance>", []⟩ "ready" ⟨"Machine.Checkers", none⟩) := by
    decide +kernel
  have hsilent : start.trace native = [] := by
    have hempty : (start.trace native).isEmpty = true := by decide +kernel
    exact List.isEmpty_iff.mp hempty
  have hsought : ∀ name ∈ asking.compiled.sought, isPlain name = true := by decide +kernel
  have haccuses := hblames.accuses
    (fun name hname => (hnames hplain name hname).mpr (hsought name hname)) _ hfailed
    (by simp [hsilent])
  refine ⟨_, hfailed, ?_, rfl⟩
  rcases haccuses with haccuses | ⟨_, _, hlifecycle⟩
  · exact haccuses
  · cases hlifecycle

/-- For the name of a checker that leads nowhere nobody is blamed, though no native code runs. -/
theorem dotted_unblamed :
    ¬ ∀ cs, Hierarchy cs → ∀ c ∈ cs, ∀ e,
      (Instance.bootstrap native (Instance.ofType c.compiled)).1 = .error e →
        (∀ m ∈ (Instance.ofType c.compiled).trace native, ¬ m.1.Raises native m.2 e) →
          e.isPathNotFound = false := by
  intro hclaim
  have hfailed : (Instance.bootstrap native (Instance.ofType dotted.compiled)).1 =
      .error (.pathNotFound ⟨"disk.ready", "<Machine instance>", []⟩) := by
    decide +kernel
  have hsilent : (Instance.ofType dotted.compiled).trace native = [] := by
    have hempty : ((Instance.ofType dotted.compiled).trace native).isEmpty = true := by
      decide +kernel
    exact List.isEmpty_iff.mp hempty
  cases hclaim _ hierarchy_dotted dotted List.mem_cons_self _ hfailed (by simp [hsilent])

end Accused

end AppAssembly
