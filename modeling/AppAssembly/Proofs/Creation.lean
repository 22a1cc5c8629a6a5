import AppAssembly.Proofs.Backing
import AppAssembly.Proofs.FailStop
import AppAssembly.Proofs.Setting

/-!
# What is created

A layer has one thing to be built for each of its deferred members, and for nothing else. A type
goes by the first layer that wants something built under a name, and then asks whether this is the
layer with the winning member of the name. Since a layer that wants something built has a member of
that name, and a layer with a deferred member wants something built, this comes to the right thing:
what is built for a name is what the layer with the winning member wants (`deferred_once`).
Creating things calls the factories of these things, each once, and no others.
-/

namespace AppAssembly

open Compile Instance

/-! ## What a layer wants built -/

namespace Declaration

variable {d : Declaration} {name : String}

theorem content_ne_deferred (d : Declaration) (key : String) (v : Value) :
    d.content key v ≠ .deferred := by
  unfold content nullContent
  split
  · split <;> simp
  · split <;> simp
  · simp

/-- What a block defers it wants built, if it is described. -/
theorem exists_item (hdescribed : d.block.kind = .custom → (customObject? d).isSome)
    (h : (name, .deferred) ∈ d.products) : ∃ item ∈ d.items, item.identity = name := by
  have hentries : (name, .deferred) ∉
      d.entriesOverNulls.map fun entry => (entry.1, d.content entry.1 entry.2) := by
    intro hmem
    obtain ⟨⟨key, v⟩, _, heq⟩ := List.mem_map.mp hmem
    exact d.content_ne_deferred key v (Prod.mk.inj heq).2
  unfold products at h
  unfold items groups objects
  cases hkind : d.block.kind with
  | components =>
      rw [hkind] at h
      obtain ⟨rfl, _⟩ := Prod.mk.inj (List.mem_singleton.mp h)
      simp only [if_true, reduceCtorEq, if_false, List.map_nil, List.append_nil]
      exact ⟨_, List.mem_singleton.mpr rfl, rfl⟩
  | custom =>
      rw [hkind] at h
      obtain ⟨rfl, _⟩ := Prod.mk.inj (List.mem_singleton.mp h)
      obtain ⟨object, hobject⟩ := Option.isSome_iff_exists.mp (hdescribed hkind)
      exact ⟨.custom object, by simp [hobject], (customObject?_eq_some hobject).1⟩
  | attrs | checkers | methods =>
      rw [hkind] at h
      exact absurd h hentries
  | install | installers | requires =>
      rw [hkind] at h
      cases h

end Declaration

namespace Compilation

variable {c : Compilation} {name : String} {origin : Origin}

/-- A block without a handler describes an object, or it would have been refused. -/
theorem describes (hplain : c.Plain) {b : Block} (hb : b ∈ c.spec.blocks)
    (hkind : (c.site.declaration b).block.kind = .custom) :
    (customObject? (c.site.declaration b)).isSome := by
  obtain ⟨made, draft, h⟩ := c.exists_drafted
  obtain ⟨products, hmem⟩ := h.exists_products hb
  have hname : Text.lowercase b.identity ∈ Entries.keys products := by
    rw [h.takes.products_eq hmem (isBuiltInFor hplain.builtIn b), Declaration.products, hkind]
    exact List.mem_singleton.mpr rfl
  obtain ⟨_, _, before, after, _, _, htakes, _⟩ := h.takes.apart hmem hname
  obtain ⟨_, hanswers, _⟩ := htakes.ledger
  cases hanswers with
  | handled found _ =>
      have hfind : c.handlers.find? (c.site.declaration b).block.identity =
          (c.site.declaration b).block.kind.handler? := isBuiltInFor hplain.builtIn b
      rw [hkind] at hfind
      cases hfind.symm.trans found
  | described _ hobject => exact Option.isSome_iff_exists.mpr ⟨_, hobject⟩

/-- Something is wanted under every name that the layer defers. -/
theorem exists_item_of_member? (hplain : c.Plain)
    (h : c.compiled.own.member? name = some ⟨.deferred, origin⟩) :
    ∃ item ∈ c.compiled.own.ledger.deferred, item.identity = name := by
  have hstands : c.Stands name (c.compiled.own.standing name) := (stands_iff hplain).mpr rfl
  cases hs : c.compiled.own.standing name with
  | produced =>
      rw [hs] at hstands
      obtain ⟨⟨b, hb, content, hproduct, hmember, _⟩, _⟩ := hstands
      rw [h, Option.some.injEq, Member.mk.injEq] at hmember
      obtain ⟨rfl, _⟩ := hmember
      obtain ⟨item, hitem, hname⟩ := Declaration.exists_item (d := c.site.declaration b)
        (describes hplain hb) hproduct
      exact ⟨item, (mem_deferred_iff hplain).mpr ⟨b, hb, hitem⟩, hname⟩
  | absent =>
      rw [hs] at hstands
      obtain ⟨hmember, _⟩ := hstands
      simp [h] at hmember
  | suppressed =>
      rw [hs] at hstands
      obtain ⟨⟨_, _, _, hmember, _⟩, _⟩ := hstands
      simp [h] at hmember
  | byHand =>
      rw [hs] at hstands
      obtain ⟨⟨_, _, hmember⟩, _⟩ := hstands
      simp [h] at hmember

end Compilation

/-! ## What a type has built -/

/-- Of elements with different keys, one has the key of a given element. -/
theorem filter_key_eq {α κ : Type} [DecidableEq κ] {key : α → κ} {l : List α} {a : α}
    (hnodup : (l.map key).Nodup) (h : a ∈ l) : l.filter (fun b => key b = key a) = [a] := by
  induction l with
  | nil => cases h
  | cons b l ih =>
      obtain ⟨hfresh, hrest⟩ := List.nodup_cons.mp hnodup
      rcases List.mem_cons.mp h with rfl | h
      · have hnone : l.filter (fun b => key b = key a) = [] := by
          rw [List.filter_eq_nil_iff]
          intro b hb hsame
          exact hfresh (of_decide_eq_true hsame ▸ List.mem_map_of_mem hb)
        simp [hnone]
      · have hne : key b ≠ key a := fun hsame => hfresh (hsame ▸ List.mem_map_of_mem h)
        simp [hne, ih hrest h]

namespace CompiledType

/-- What is built for the instances of a type, name by name. -/
structure DefersOnce (t : CompiledType) : Prop where
  without_layers : t.deferred = t.deferredBy.map Prod.snd
  /-- For a name whose winning member is deferred, the one thing is built that the layer of this
  member wants built. -/
  winner : ∀ {name layer origin}, t.member? name = some (layer, ⟨.deferred, origin⟩) →
    ∃ item, layer.ledger.deferred.filter (fun other => other.identity = name) = [item] ∧
      t.deferredBy.filter (fun entry => entry.2.identity = name) = [(layer, item)]
  /-- For any other name nothing is built. -/
  nothing_else : ∀ {name}, (∀ layer origin, t.member? name ≠ some (layer, ⟨.deferred, origin⟩)) →
    t.deferredBy.filter (fun entry => entry.2.identity = name) = []

/-- What is built, the layer with the winning member of its name wants built. -/
theorem DefersOnce.owner {t : CompiledType} (h : t.DefersOnce) {layer : Layer} {item : Deferred}
    (hby : (layer, item) ∈ t.deferredBy) : item ∈ layer.ledger.deferred ∧
      ∃ origin, t.member? item.identity = some (layer, ⟨.deferred, origin⟩) := by
  have hmine : (layer, item) ∈
      t.deferredBy.filter (fun entry => entry.2.identity = item.identity) :=
    List.mem_filter.mpr ⟨hby, by simp⟩
  by_cases hwins : ∃ owner origin, t.member? item.identity = some (owner, ⟨.deferred, origin⟩)
  · obtain ⟨owner, origin, hwinner⟩ := hwins
    obtain ⟨other, hrecorded, hbuilt⟩ := h.winner hwinner
    rw [hbuilt, List.mem_singleton] at hmine
    obtain ⟨rfl, rfl⟩ := Prod.mk.inj hmine
    have hitem : item ∈ [item] := List.mem_singleton.mpr rfl
    rw [← hrecorded] at hitem
    exact ⟨(List.mem_filter.mp hitem).1, origin, hwinner⟩
  · rw [h.nothing_else fun owner origin hwinner => hwins ⟨owner, origin, hwinner⟩] at hmine
    cases hmine

/-- Something is built for a name whose winning member is deferred, as its layer wants it. -/
theorem DefersOnce.exists_deferred {t : CompiledType} (h : t.DefersOnce) {name : String}
    {layer : Layer} {origin : Origin}
    (hwinner : t.member? name = some (layer, ⟨.deferred, origin⟩)) :
    ∃ item ∈ t.deferred, item.identity = name ∧ item ∈ layer.ledger.deferred := by
  obtain ⟨item, hrecorded, hbuilt⟩ := h.winner hwinner
  have hmine : item ∈ layer.ledger.deferred.filter (fun other => other.identity = name) := by
    rw [hrecorded]
    exact List.mem_singleton.mpr rfl
  have hby : (layer, item) ∈ t.deferredBy.filter (fun entry => entry.2.identity = name) := by
    rw [hbuilt]
    exact List.mem_singleton.mpr rfl
  obtain ⟨hitem, hname⟩ := List.mem_filter.mp hmine
  refine ⟨item, ?_, of_decide_eq_true hname, hitem⟩
  rw [h.without_layers]
  exact List.mem_map_of_mem (List.mem_filter.mp hby).1

theorem nodup_deferredBy (t : CompiledType) :
    (t.deferredBy.map fun entry => entry.2.identity).Nodup :=
  List.Nodup.sublist (List.filter_sublist.map _) (nodup_map_firstBy _ _)

end CompiledType

theorem Hierarchy.defersOnce {cs : List Compilation} (h : Hierarchy cs)
    (hplain : ∀ c ∈ cs, c.Plain) {e : Compilation} (he : e ∈ cs) : e.compiled.DefersOnce where
  without_layers := e.compiled.deferred_eq
  winner := by
    intro name layer origin hwinner
    obtain ⟨hfind, hmember⟩ := CompiledType.member?_eq_some_iff.mp hwinner
    obtain ⟨d, hd, rfl, _⟩ := (h.chain he).made layer (List.mem_of_find?_eq_some hfind)
    obtain ⟨item, hitem, rfl⟩ := Compilation.exists_item_of_member? (hplain d hd) hmember
    have hby := (h.mem_deferredBy_iff hplain he).mpr ⟨hitem, origin, hwinner⟩
    exact ⟨item, filter_key_eq (Compilation.nodup_deferred (hplain d hd)) hitem,
      filter_key_eq e.compiled.nodup_deferredBy hby⟩
  nothing_else := by
    intro name hnone
    rw [List.filter_eq_nil_iff]
    rintro ⟨layer, item⟩ hby hname
    obtain ⟨_, origin, hwinner⟩ := (h.mem_deferredBy_iff hplain he).mp hby
    rw [of_decide_eq_true hname] at hwinner
    exact hnone layer origin hwinner

/-! ## What creating builds -/

namespace Instance

/-- What creating things begins to build, each with the instance that it finds. -/
def creations (make : Builder) (i : Instance) : List (Deferred × Instance) :=
  match i.misstep? .createThings with
  | some _ => []
  | none => Act.course (create make) i.compiled.deferred (i.begun .createThings)

/-- The calls of factories that creating things makes, in order. -/
def buildCalls (make : Builder) (i : Instance) : List Build :=
  (i.creations make).flatMap fun m =>
    (Act.course (Build.run make) m.1.builds m.2.workshop).map Prod.fst

variable {make : Builder} {i : Instance}

theorem creations_of_due (h : i.misstep? .createThings = none) :
    i.creations make = Act.course (create make) i.compiled.deferred (i.begun .createThings) := by
  unfold creations
  rw [h]

theorem buildCalls_of_refused {misstep : Misstep} (h : i.misstep? .createThings = some misstep) :
    i.buildCalls make = [] := by
  unfold buildCalls creations
  rw [h]
  rfl

/-- Creating things comes to creating one after the other. -/
theorem createThings_of_due (h : i.misstep? .createThings = none) {r : Except Error Unit}
    {j : Instance}
    (hrun : Act.forEach i.compiled.deferred (create make) (i.begun .createThings) = (r, j)) :
    createThings make i =
      (r, { j with workshop := j.workshop.note (ending .createThings r) }) :=
  undertake_begun h hrun

/-- What was created stays under its name while things of other names are created. -/
theorem placed_of_course {items : List Deferred} (hnodup : (items.map Deferred.identity).Nodup)
    (hok : (Act.forEach items (create make) i).1 = .ok ()) {m : Deferred × Instance}
    (hm : m ∈ Act.course (create make) items i) :
    ∃ v w, m.1.materialize make m.2.workshop = (.ok v, w) ∧
      (Act.forEach items (create make) i).2.attrs.get? m.1.identity = some v := by
  induction items generalizing i with
  | nil => cases hm
  | cons item items ih =>
      obtain ⟨hfresh, hrest⟩ := List.nodup_cons.mp hnodup
      rcases i.create_cases make item with ⟨e, w, _, hcreated⟩ | ⟨v, w, made, _, hmade, hcreated⟩
      · rw [Act.forEach_cons_error hcreated] at hok
        cases hok
      · rw [Act.forEach_cons_ok hcreated] at hok ⊢
        rw [Act.course_cons_ok hcreated] at hm
        rcases List.mem_cons.mp hm with rfl | hm
        · have hfills := Act.keeps_forEach (R := Fills (items.map Deferred.identity))
            (fun other hother => create_fills make (List.mem_map_of_mem hother))
          refine ⟨v, _, hmade, ?_⟩
          rw [(hfills _).attrs item.identity hfresh]
          exact Entries.get?_insert_self _ _ _
        · exact ih hrest hok hm

theorem lookup_placed {name : String} {v : Value} (h : i.attrs.get? name = some v) :
    lookup name i = (.ok (some v), i) := by
  rw [lookup]
  simp only [h]

theorem get_placed {name : String} {v : Value} (h : i.attrs.get? name = some v)
    (hplain : isPlain name = true) : (get name i).1 = .ok v := by
  rw [get_of_lookup hplain (lookup_placed h)]

/-- What creating things builds and where this is found. -/
structure CreatesOnce (make : Builder) (i : Instance) : Prop where
  /-- The calls that are made are a beginning of those that what the type defers takes. -/
  calls : i.buildCalls make <+: i.compiled.deferredBy.flatMap fun entry => entry.2.builds
  complete : (createThings make i).1 = .ok () →
    (i.creations make).map Prod.fst = i.compiled.deferred ∧
      i.buildCalls make = i.compiled.deferredBy.flatMap fun entry => entry.2.builds
  /-- No other calls are made. -/
  noted : (createThings make i).2.works = i.works ++ (i.buildCalls make).map fun b => .build b.name
  /-- No factory is called for a layer that lost the name. -/
  owned : ∀ b ∈ i.buildCalls make, ∃ layer item origin, b ∈ item.builds ∧
    item ∈ layer.ledger.deferred ∧
      i.compiled.member? item.identity = some (layer, ⟨.deferred, origin⟩)
  /-- A name whose winning member is deferred has what was built for it. -/
  built : (createThings make i).1 = .ok () → ∀ {name layer origin},
    i.compiled.member? name = some (layer, ⟨.deferred, origin⟩) → ∃ item j v w,
      item ∈ layer.ledger.deferred ∧ item.identity = name ∧ (item, j) ∈ i.creations make ∧
        item.materialize make j.workshop = (.ok v, w) ∧
        (createThings make i).2.attrs.get? name = some v ∧
        (isPlain name = true → (get name (createThings make i).2).1 = .ok v)
  /-- Nothing is placed under any other name. -/
  spared : ∀ {name}, (∀ layer origin, i.compiled.member? name ≠ some (layer, ⟨.deferred, origin⟩)) →
    (createThings make i).2.attrs.get? name = i.attrs.get? name

theorem flatMap_deferredBy (t : CompiledType) :
    (t.deferredBy.flatMap fun entry => entry.2.builds) = t.deferred.flatMap Deferred.builds := by
  rw [t.deferred_eq, List.flatMap_map]

/-- What is called is what the things take, up to the first failure. -/
theorem buildCalls_due (h : i.misstep? .createThings = none) :
    i.buildCalls make <+: i.compiled.deferred.flatMap Deferred.builds ∧
      ((createThings make i).1 = .ok () →
        i.buildCalls make = i.compiled.deferred.flatMap Deferred.builds) := by
  have hcreated : (createThings make i).1 =
      (Act.forEach i.compiled.deferred (create make) (i.begun .createThings)).1 := by
    rw [createThings_of_due h rfl]
  rw [buildCalls, creations_of_due h, hcreated]
  refine Act.flatMap_course fun m _ => ⟨Act.course_begins _ _ _, fun hok => ?_⟩
  rw [create_fst] at hok
  exact Act.course_of_ok hok

theorem buildCalls_noted (h : i.misstep? .createThings = none) :
    (createThings make i).2.works = i.works ++ (i.buildCalls make).map fun b => .build b.name := by
  have hlog : (Act.forEach i.compiled.deferred (create make) (i.begun .createThings)).2.works =
      (i.begun .createThings).works ++
        (Act.course (create make) i.compiled.deferred (i.begun .createThings)).flatMap fun m =>
          (Act.course (Build.run make) m.1.builds m.2.workshop).map fun n => .build n.1.name :=
    Act.log_course (I := fun _ => True) (fun _ _ _ _ => trivial)
      (fun item _ k _ => create_works make item k) trivial
  have hbegun : (i.begun .createThings).works = i.works := by
    simp [works, begun, Workshop.note, Deed.isWork]
  rcases hrun : Act.forEach i.compiled.deferred (create make) (i.begun .createThings) with ⟨r, j⟩
  rw [hrun, hbegun] at hlog
  have hending : (createThings make i).2.works = j.works := by
    rw [createThings_of_due h hrun]
    cases r <;> simp [works, Workshop.note, ending, Deed.isWork]
  rw [hending, hlog, buildCalls, creations_of_due h, List.map_flatMap]
  simp only [List.map_map, Function.comp_def]

theorem buildCalls_begin (make : Builder) (i : Instance) :
    i.buildCalls make <+: i.compiled.deferredBy.flatMap fun entry => entry.2.builds := by
  rw [flatMap_deferredBy]
  cases hmisstep : i.misstep? .createThings with
  | none => exact (buildCalls_due hmisstep).1
  | some misstep =>
      rw [buildCalls_of_refused hmisstep]
      exact List.nil_prefix

/-- What was to be created is found under its name. -/
theorem placed_of_mem_deferred (hok : (createThings make i).1 = .ok ()) {item : Deferred}
    (hitem : item ∈ i.compiled.deferred) :
    ∃ j v w, (item, j) ∈ i.creations make ∧ item.materialize make j.workshop = (.ok v, w) ∧
      (createThings make i).2.attrs.get? item.identity = some v := by
  have hdue := misstep?_of_ok hok
  rcases hrun : Act.forEach i.compiled.deferred (create make) (i.begun .createThings) with ⟨r, j⟩
  rw [createThings_of_due hdue hrun] at hok ⊢
  rw [creations_of_due hdue]
  have hall :
      (Act.forEach i.compiled.deferred (create make) (i.begun .createThings)).1 = .ok () := by
    rw [hrun]
    exact hok
  rw [← Act.course_of_ok hall] at hitem
  obtain ⟨⟨_, k⟩, hmem, rfl⟩ := List.mem_map.mp hitem
  obtain ⟨v, w, hmade, hplaced⟩ := placed_of_course i.compiled.nodup_deferred hall hmem
  rw [hrun] at hplaced
  exact ⟨k, v, w, hmem, hmade, hplaced⟩

theorem createsOnce (make : Builder) (h : i.compiled.DefersOnce) : i.CreatesOnce make where
  calls := i.buildCalls_begin make
  complete := by
    intro hok
    have hdue := misstep?_of_ok hok
    rw [flatMap_deferredBy]
    refine ⟨?_, (buildCalls_due hdue).2 hok⟩
    rw [createThings_of_due hdue rfl] at hok
    rw [creations_of_due hdue, Act.course_of_ok hok]
  noted := by
    cases hmisstep : i.misstep? .createThings with
    | none => exact buildCalls_noted hmisstep
    | some misstep =>
        rw [buildCalls_of_refused hmisstep, createThings, undertake_refused hmisstep]
        simp
  owned := by
    intro b hb
    obtain ⟨⟨layer, item⟩, hby, hbuild⟩ := List.mem_flatMap.mp ((i.buildCalls_begin make).mem hb)
    obtain ⟨hrecorded, origin, hwinner⟩ := h.owner hby
    exact ⟨layer, item, origin, hbuild, hrecorded, hwinner⟩
  built := by
    intro hok name layer origin hwinner
    obtain ⟨item, hdeferred, rfl, hitem⟩ := h.exists_deferred hwinner
    obtain ⟨j, v, w, hbegun, hmade, hplaced⟩ := placed_of_mem_deferred hok hdeferred
    exact ⟨item, j, v, w, hitem, rfl, hbegun, hmade, hplaced, get_placed hplaced⟩
  spared := by
    intro name hnone
    refine (createThings_places make i).attrs name ?_
    rw [Bool.eq_false_iff]
    intro hawaits
    obtain ⟨_, layer, origin, hmember⟩ := awaits_eq_true_iff.mp hawaits
    exact hnone layer origin hmember

end Instance

/-- What is deferred is built once, from the right layer. For a name whose winning member is
deferred the one thing is built that the layer of this member wants built, and for other names
nothing. On every instance and whatever factories make, creating things calls the factories of
these things and no others, and has each name get what was built for it. -/
theorem Hierarchy.deferred_once {cs : List Compilation} (h : Hierarchy cs)
    (hplain : ∀ c ∈ cs, c.Plain) {e : Compilation} (he : e ∈ cs) :
    e.compiled.DefersOnce ∧ ∀ (make : Builder) (i : Instance), i.compiled = e.compiled →
      i.CreatesOnce make :=
  ⟨h.defersOnce hplain he, fun make _ hi => createsOnce make (hi ▸ h.defersOnce hplain he)⟩

/-! ## What a base would have had built

The factory of a base fails, and so does that of an object of the base. A type that is built on it
has a component of its own in place of the first and a value in place of the other. -/

namespace Shadowed

def broken : Factory :=
  ⟨.given 0, "Broken", [], [], none, .fail "not for use"⟩

def part : Factory :=
  ⟨.given 1, "Part", [], [], none, .constant (.int 3)⟩

def base : Compilation :=
  .ofOk .builtIn 0
    { name := "Base"
      blocks := [
        { identity := "Components", entries := [("disk", .factory broken)] },
        { identity := "Cache", mainType := some broken }] }
    [] (by decide +kernel)

def derived : Compilation :=
  .ofOk .builtIn 1
    { name := "Derived"
      blocks := [{ identity := "Components", entries := [("disk", .factory part)] }]
      members := [("cache", .int 5)] }
    [base.compiled] (by decide +kernel)

theorem hierarchy : Hierarchy [derived, base] := by
  refine .compile (.compile .empty ?_ ?_) ?_ ?_
  · simp
  · simp [base, Compilation.ofOk]
  · simp [base, derived, Compilation.ofOk]
  · simp [derived, Compilation.ofOk]

theorem plain : ∀ c ∈ [derived, base], c.Plain := by
  simp only [List.mem_cons, List.not_mem_nil, or_false, forall_eq_or_imp, forall_eq]
  exact ⟨⟨rfl, rfl⟩, ⟨rfl, rfl⟩⟩

def start : Instance :=
  Instance.ofType derived.compiled

/-- Only the one part was built, and it is found. -/
theorem deferred_once_start :
    base.compiled.deferred.map Deferred.identity = ["components", "cache"] ∧
    (createThings Recipe.make start).1 = .ok () ∧
    (createThings Recipe.make start).2.works = [.build "components.disk"] ∧
    (∃ v, (get "components" (createThings Recipe.make start).2).1 = .ok v) ∧
    (createThings Recipe.make start).2.attrs.get? "cache" = none := by
  obtain ⟨_, hcreates⟩ :=
    hierarchy.deferred_once plain (e := derived) List.mem_cons_self
  have hstart := hcreates Recipe.make start rfl
  have hok : (createThings Recipe.make start).1 = .ok () := eq_ok_okValue (by decide +kernel)
  have hawaits : start.awaits "components" = true := by decide +kernel
  obtain ⟨_, layer, origin, hwinner⟩ := awaits_eq_true_iff.mp hawaits
  obtain ⟨_, _, v, _, _, _, _, _, _, hget⟩ := hstart.built hok hwinner
  refine ⟨by decide +kernel, hok, ?_, ⟨v, hget (by decide)⟩, ?_⟩
  · rw [hstart.noted, (hstart.complete hok).2]
    decide +kernel
  · refine hstart.spared fun layer origin hmember => ?_
    have hnone : start.awaits "cache" = false := by decide +kernel
    rw [Bool.eq_false_iff] at hnone
    exact hnone (awaits_eq_true_iff.mpr ⟨rfl, layer, origin, hmember⟩)

end Shadowed

end AppAssembly
