import AppAssembly.Proofs.Hierarchy

/-!
# Overriding

Whatever is asked of a type, the layers are walked from the most derived one on and the first that
mentions a name answers. Together with the order of the layers this means that an override stands:
once a type has overridden something of a type it inherits from, no descendant gets the old record
back, however many bases it has.

A record does not say by itself which layer it is from. So the walks are repeated here with every
record next to its layer; without the layers they are the walks themselves.
-/

namespace AppAssembly

/-! ## Records with their layers -/

/-- What some layers record, each record with its layer. -/
def recorded {α : Type} (records : Layer → List α) (layers : List Layer) : List (Layer × α) :=
  layers.flatMap fun layer => (records layer).map fun a => (layer, a)

theorem mem_recorded {α : Type} {records : Layer → List α} {layers : List Layer}
    {entry : Layer × α} :
    entry ∈ recorded records layers ↔ entry.1 ∈ layers ∧ entry.2 ∈ records entry.1 := by
  obtain ⟨layer, a⟩ := entry
  simp only [recorded, List.mem_flatMap, List.mem_map, Prod.mk.injEq]
  constructor
  · rintro ⟨l, hl, b, hb, rfl, rfl⟩
    exact ⟨hl, hb⟩
  · rintro ⟨hl, ha⟩
    exact ⟨layer, hl, a, ha, rfl, rfl⟩

theorem map_snd_recorded {α : Type} (records : Layer → List α) (layers : List Layer) :
    (recorded records layers).map Prod.snd = layers.flatMap records := by
  rw [recorded, List.map_flatMap]
  congr 1
  funext layer
  rw [List.map_map]
  exact List.map_id _

/-- A walk along layers leaves the layer of every record behind. -/
theorem firstBy_flatMap {α : Type} (key : α → String) (records : Layer → List α)
    (layers : List Layer) :
    firstBy key (layers.flatMap records) =
      (firstBy (fun entry => key entry.2) (recorded records layers)).map Prod.snd := by
  rw [← map_snd_recorded, firstBy_map]

namespace CompiledType

/-- The requirements to check, with their layers. -/
def requirementsBy (t : CompiledType) : List (Layer × Requirement) :=
  (firstBy (fun entry => entry.2.identity)
    (recorded (fun layer => layer.ledger.requirements) t.layers)).filter
      fun entry => !entry.2.isSuppression

theorem requirements_eq (t : CompiledType) :
    t.requirements = t.requirementsBy.map Prod.snd := by
  rw [requirements, requirementsBy, firstBy_flatMap, List.filter_map]
  rfl

/-- The checkers to run, with their layers. -/
def checkersBy (t : CompiledType) : List (Layer × Checker) :=
  (firstBy (fun entry => entry.2.identity)
    (recorded (fun layer => layer.ledger.checkers) t.layers)).filter
      fun entry => entry.2.active

theorem checkers_eq (t : CompiledType) : t.checkers = t.checkersBy.map Prod.snd := by
  rw [checkers, checkersBy, firstBy_flatMap, List.filter_map]
  rfl

/-- The attributes that have to be callable, with their layers. -/
def methodsBy (t : CompiledType) : List (Layer × Method) :=
  firstBy (fun entry => entry.2.identity)
    (recorded (fun layer => layer.ledger.methods) t.layers)

theorem methods_eq (t : CompiledType) : t.methods = t.methodsBy.map Prod.snd := by
  rw [methods, methodsBy, firstBy_flatMap]

/-! ## Installers -/

/-- The layers whose installers count: those up to the first whose block does not extend. -/
def installerLayers : List Layer → List Layer
  | [] => []
  | layer :: rest =>
      if layer.ledger.installers.any fun block => !block.extend then [layer]
      else layer :: installerLayers rest

theorem installerLayers_prefix (layers : List Layer) :
    installerLayers layers <+: layers := by
  induction layers with
  | nil => exact List.prefix_rfl
  | cons layer rest ih =>
      rw [installerLayers]
      split
      · exact ⟨rest, rfl⟩
      · exact (List.prefix_cons_inj layer).mpr ih

theorem installerBlocks_eq (layers : List Layer) :
    installerBlocks layers =
      (installerLayers layers).flatMap fun layer => layer.ledger.installers.toList := by
  induction layers with
  | nil => rfl
  | cons layer rest ih =>
      rw [installerBlocks, installerLayers, ih]
      cases hblock : layer.ledger.installers with
      | none => simp [hblock]
      | some block =>
          by_cases hextend : block.extend = true
          · simp [hblock, hextend]
          · simp [hblock, hextend]

/-- What one layer says about each identity. -/
def layerInstallers (layer : Layer) : List (String × Option String × Origin) :=
  installerMentions layer.ledger.installers.toList

theorem installerMentions_eq (layers : List Layer) :
    installerMentions (installerBlocks layers) =
      (installerLayers layers).flatMap layerInstallers := by
  rw [installerBlocks_eq, installerMentions, List.flatMap_assoc]
  rfl

/-- The objects to install, with the layers that say so. -/
def installersBy (t : CompiledType) : List (Layer × Installer) :=
  (firstBy (fun entry => entry.2.1)
    (recorded layerInstallers (installerLayers t.layers))).filterMap
      fun (layer, identity, path, origin) => path.map fun path => (layer, ⟨identity, path, origin⟩)

theorem installers_eq (t : CompiledType) : t.installers = t.installersBy.map Prod.snd := by
  rw [installers, installersBy, installerMentions_eq, firstBy_flatMap, List.filterMap_map,
    List.map_filterMap]
  congr 1
  funext entry
  obtain ⟨layer, identity, path, origin⟩ := entry
  cases path <;> rfl

end CompiledType

/-! ## Who answers -/

/-- Layers in front of another one: what they mention is not answered by that one. -/
theorem fst_ne_of_mem_firstBy {α : Type} (key : α → String) {records : Layer → List α}
    {near far : List Layer} {d b : Layer} {a : α} {entry : Layer × α} (hd : d ∈ near)
    (hnear : ∀ l ∈ near, l.id ≠ b.id) (ha : a ∈ records d)
    (h : entry ∈ firstBy (fun entry => key entry.2) (recorded records (near ++ far)))
    (hkey : key entry.2 = key a) : entry.1.id ≠ b.id := by
  rw [recorded, List.flatMap_append] at h
  have hmem : entry ∈ recorded records near := by
    refine mem_left_of_mem_firstBy_append h ?_
    rw [hkey]
    exact List.mem_map.mpr ⟨(d, a), mem_recorded.mpr ⟨hd, ha⟩, rfl⟩
  exact hnear _ (mem_recorded.mp hmem).1

/-- The layer of a winning member is none of those behind a layer that declares the name. -/
theorem fst_ne_of_memberAlong {near far : List Layer} {d b owner : Layer} {name : String}
    {member : Member} (hd : d ∈ near) (hnear : ∀ l ∈ near, l.id ≠ b.id)
    (hname : (d.member? name).isSome)
    (h : CompiledType.memberAlong (near ++ far) name = some (owner, member)) :
    owner.id ≠ b.id := by
  rw [CompiledType.memberAlong, List.findSome?_append] at h
  cases hfound : near.findSome? fun layer =>
      (layer.member? name).map fun member => (layer, member) with
  | none =>
      have := List.findSome?_eq_none_iff.mp hfound d hd
      rw [Option.map_eq_none_iff] at this
      rw [this] at hname
      cases hname
  | some found =>
      rw [hfound, Option.some_or] at h
      cases h
      obtain ⟨l, hl, hmember⟩ := List.exists_of_findSome?_eq_some hfound
      obtain ⟨_, _, heq⟩ := Option.map_eq_some_iff.mp hmember
      cases heq
      exact hnear owner hl

/-- No identity stands on both sides of a split. -/
theorem split_of_sublist {layers : List Layer} (hnodup : (layers.map Layer.id).Nodup) {d b : Layer}
    (hpair : [d, b].Sublist layers) :
    ∃ near far, layers = near ++ far ∧ d ∈ near ∧ ∀ l ∈ near, l.id ≠ b.id := by
  obtain ⟨near, far, hsplit, hnear, hfar⟩ := List.cons_sublist_iff.mp hpair
  rw [hsplit, List.map_append, List.nodup_append] at hnodup
  refine ⟨near, far, hsplit, hnear, fun l hl => ?_⟩
  exact hnodup.2.2 _ (List.mem_map_of_mem hl) _
    (List.mem_map_of_mem (List.singleton_sublist.mp hfar))

/-- A type's layer stands before the layers it inherits from, wherever it is used. -/
theorem Hierarchy.layers_split {cs : List Compilation} (h : Hierarchy cs) {d e : Compilation}
    (hd : d ∈ cs) (he : e ∈ cs) (hde : d.compiled.own ∈ e.compiled.layers) {b : Layer}
    (hb : b ∈ d.compiled.ancestors) :
    ∃ near far, e.compiled.layers = near ++ far ∧ d.compiled.own ∈ near ∧
      ∀ l ∈ near, l.id ≠ b.id := by
  refine split_of_sublist (h.chain he).nodup ?_
  exact ((List.singleton_sublist.mpr hb).cons_cons _).trans (h.layers_sublist he hd hde)

/-- The installers that count are those of some nearest layers, so the layers behind a layer stay
behind it or are left out. -/
theorem fst_ne_of_mem_installers {near far : List Layer} {d b : Layer} {block : InstallerBlock}
    {identity : String} {entry : Layer × String × Option String × Origin} (hd : d ∈ near)
    (hnear : ∀ l ∈ near, l.id ≠ b.id) (hblock : d.ledger.installers = some block)
    (hidentity : identity ∈ block.entries.keys)
    (h : entry ∈ firstBy (fun entry => entry.2.1)
      (recorded CompiledType.layerInstallers (CompiledType.installerLayers (near ++ far))))
    (hkey : entry.2.1 = identity) : entry.1.id ≠ b.id := by
  obtain ⟨left, hleft⟩ := CompiledType.installerLayers_prefix (near ++ far)
  rcases List.append_eq_append_iff.mp hleft with ⟨rest, hrest, _⟩ | ⟨rest, hrest, _⟩
  · -- the walk ends within the nearer layers
    have hmem := (mem_recorded.mp (mem_of_mem_firstBy h)).1
    refine hnear _ ?_
    rw [hrest]
    exact List.mem_append_left rest hmem
  · rw [hrest] at h
    obtain ⟨path, hpath⟩ : ∃ path, (identity, path) ∈ block.entries := by
      obtain ⟨pair, hpair, rfl⟩ := List.mem_map.mp hidentity
      exact ⟨pair.2, hpair⟩
    have ha : (identity, path, block.origin) ∈ CompiledType.layerInstallers d := by
      rw [CompiledType.layerInstallers, hblock]
      exact List.mem_flatMap.mpr
        ⟨block, by simp, List.mem_map.mpr ⟨(identity, path), hpath, rfl⟩⟩
    exact fst_ne_of_mem_firstBy Prod.fst hd hnear ha h hkey

/-- An override stands. Where a type that inherits from a layer is part of another type, and
declares a name or mentions an identity, that other type never answers with the record of the
layer it inherits from. -/
theorem Hierarchy.override_stands {cs : List Compilation} (h : Hierarchy cs) {d e : Compilation}
    (hd : d ∈ cs) (he : e ∈ cs) (hde : d.compiled.own ∈ e.compiled.layers) {b : Layer}
    (hb : b ∈ d.compiled.ancestors) :
    (∀ name, (d.compiled.own.member? name).isSome →
      ∀ owner member, e.compiled.member? name = some (owner, member) → owner.id ≠ b.id) ∧
    (∀ identity, (∃ block, d.compiled.own.ledger.installers = some block ∧
        identity ∈ block.entries.keys) →
      ∀ entry ∈ e.compiled.installersBy, entry.2.identity = identity → entry.1.id ≠ b.id) ∧
    (∀ identity, (∃ r ∈ d.compiled.own.ledger.requirements, r.identity = identity) →
      ∀ entry ∈ e.compiled.requirementsBy, entry.2.identity = identity → entry.1.id ≠ b.id) ∧
    (∀ identity, (∃ r ∈ d.compiled.own.ledger.checkers, r.identity = identity) →
      ∀ entry ∈ e.compiled.checkersBy, entry.2.identity = identity → entry.1.id ≠ b.id) ∧
    (∀ identity, (∃ r ∈ d.compiled.own.ledger.methods, r.identity = identity) →
      ∀ entry ∈ e.compiled.methodsBy, entry.2.identity = identity → entry.1.id ≠ b.id) ∧
    e.compiled.installers = e.compiled.installersBy.map Prod.snd ∧
    e.compiled.requirements = e.compiled.requirementsBy.map Prod.snd ∧
    e.compiled.checkers = e.compiled.checkersBy.map Prod.snd ∧
    e.compiled.methods = e.compiled.methodsBy.map Prod.snd := by
  obtain ⟨near, far, hsplit, hnear, hfar⟩ := h.layers_split hd he hde hb
  refine ⟨?_, ?_, ?_, ?_, ?_, e.compiled.installers_eq, e.compiled.requirements_eq,
    e.compiled.checkers_eq, e.compiled.methods_eq⟩
  · intro name hname owner member hmember
    rw [CompiledType.member?, hsplit] at hmember
    exact fst_ne_of_memberAlong hnear hfar hname hmember
  · rintro identity ⟨block, hblock, hidentity⟩ entry hentry hkey
    rw [CompiledType.installersBy, hsplit] at hentry
    obtain ⟨⟨layer, i, path, origin⟩, hmention, hsome⟩ := List.mem_filterMap.mp hentry
    obtain ⟨_, _, rfl⟩ := Option.map_eq_some_iff.mp hsome
    exact fst_ne_of_mem_installers hnear hfar hblock hidentity hmention hkey
  · rintro identity ⟨r, hr, rfl⟩ entry hentry hkey
    rw [CompiledType.requirementsBy, hsplit] at hentry
    exact fst_ne_of_mem_firstBy Requirement.identity hnear hfar hr
      (List.mem_filter.mp hentry).1 hkey
  · rintro identity ⟨r, hr, rfl⟩ entry hentry hkey
    rw [CompiledType.checkersBy, hsplit] at hentry
    exact fst_ne_of_mem_firstBy Checker.identity hnear hfar hr (List.mem_filter.mp hentry).1 hkey
  · rintro identity ⟨r, hr, rfl⟩ entry hentry hkey
    rw [CompiledType.methodsBy, hsplit] at hentry
    exact fst_ne_of_mem_firstBy Method.identity hnear hfar hr hentry hkey

namespace Diamond

/-- Of the two sides, only one has the member anew; it wins over the root for both. -/
theorem override_stands_both :
    (∀ owner member, both.compiled.member? "mode" = some (owner, member) → owner.id ≠ 0) ∧
    (∀ entry ∈ both.compiled.requirementsBy, entry.2.identity = "mode" → entry.1.id ≠ 0) ∧
    both.compiled.requirements.map Requirement.paths = [["y"]] := by
  have hd : right ∈ [both, right, left, root] := by simp
  have he : both ∈ [both, right, left, root] := by simp
  obtain ⟨hmember, _, hrequirement, _⟩ := hierarchy.override_stands hd he
    (List.mem_cons_of_mem both.compiled.own right_mem_both) root_mem_right
  have hid : root.compiled.own.id = 0 := root.own_id
  have hmention : "mode" ∈ right.compiled.own.ledger.requirements.map Requirement.identity := by
    decide +kernel
  rw [hid] at hmember hrequirement
  exact ⟨hmember "mode" (by decide +kernel), hrequirement "mode" (List.mem_map.mp hmention),
    by decide +kernel⟩

end Diamond

end AppAssembly
