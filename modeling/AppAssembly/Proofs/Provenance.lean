import AppAssembly.Proofs.Backing

/-!
# Provenance

Who has a name is read off the members of the layers, and who added, removed or replaced it off
their ledgers. The ledger of a layer has a name that was declared by hand only if one of its own
ancestors added it. So where two types that know nothing of each other become the bases of a third
one, the provenance can name a declaration that lost to an attribute declared by hand, and say
nothing of the one that won (`Hierarchy.provenance_adds_iff`).
-/

namespace AppAssembly

/-- The ledger of the layer has nothing on a name. -/
structure Layer.Ignores (l : Layer) (name : String) : Prop where
  added : l.ledger.addedBy? name = none
  removed : l.ledger.removedBy? name = none
  replaced : l.ledger.replacedBy? name = none

/-! ## The walk along the ledgers -/

namespace CompiledType

/-- Only an adder is named exactly if it is the first whose ledger has the name, and that ledger
says nothing else of it. -/
theorem provenanceAlong_eq_iff {layers : List Layer} {name : String} {o : Origin} :
    provenanceAlong name layers = ⟨some o, none⟩ ↔
      ∃ near a far, layers = near ++ a :: far ∧ (∀ l ∈ near, l.Ignores name) ∧
        a.ledger.addedBy? name = some o ∧ a.ledger.removedBy? name = none ∧
        a.ledger.replacedBy? name = none := by
  induction layers with
  | nil => simp [provenanceAlong]
  | cons l rest ih =>
      rw [provenanceAlong]
      cases hadded : l.ledger.addedBy? name with
      | some origin =>
          simp only [Provenance.mk.injEq, Option.some.injEq, Option.or_eq_none_iff]
          constructor
          · rintro ⟨rfl, hremoved, hreplaced⟩
            exact ⟨[], l, rest, rfl, by simp, hadded, hremoved, hreplaced⟩
          · rintro ⟨near, a, far, hsplit, hnear, ha, hremoved, hreplaced⟩
            cases near with
            | nil =>
                obtain ⟨rfl, rfl⟩ := List.cons.inj hsplit
                rw [hadded] at ha
                exact ⟨Option.some.inj ha, hremoved, hreplaced⟩
            | cons first near =>
                obtain ⟨rfl, _⟩ := List.cons.inj hsplit
                simp [(hnear l List.mem_cons_self).added] at hadded
      | none =>
          have hrest : (⟨(provenanceAlong name rest).addedBy,
              ((l.ledger.removedBy? name).or (l.ledger.replacedBy? name)).or
                (provenanceAlong name rest).removedBy⟩ : Provenance) = ⟨some o, none⟩ ↔
              l.Ignores name ∧ provenanceAlong name rest = ⟨some o, none⟩ := by
            obtain ⟨addedBy, removedBy⟩ := provenanceAlong name rest
            simp only [Provenance.mk.injEq, Option.or_eq_none_iff]
            constructor
            · rintro ⟨hadder, ⟨hremoved, hreplaced⟩, hnobody⟩
              exact ⟨⟨hadded, hremoved, hreplaced⟩, hadder, hnobody⟩
            · rintro ⟨⟨_, hremoved, hreplaced⟩, hadder, hnobody⟩
              exact ⟨hadder, ⟨hremoved, hreplaced⟩, hnobody⟩
          rw [hrest, ih]
          constructor
          · rintro ⟨hl, near, a, far, rfl, hnear, ha⟩
            exact ⟨l :: near, a, far, rfl, List.forall_mem_cons.mpr ⟨hl, hnear⟩, ha⟩
          · rintro ⟨near, a, far, hsplit, hnear, ha⟩
            cases near with
            | nil =>
                obtain ⟨rfl, _⟩ := List.cons.inj hsplit
                simp [ha.1] at hadded
            | cons first near =>
                obtain ⟨rfl, rfl⟩ := List.cons.inj hsplit
                obtain ⟨hl, hnear⟩ := List.forall_mem_cons.mp hnear
                exact ⟨hl, near, a, far, rfl, hnear, ha⟩

end CompiledType

/-! ## Standing and the ledger -/

namespace Compilation

variable {c : Compilation} {name : String} {o : Origin}

/-- A layer without the member has nothing on record for it. -/
theorem ignores_of_member?_none (hplain : c.Plain) (h : c.compiled.own.member? name = none) :
    c.compiled.own.Ignores name := by
  have hstands : c.Stands name (c.compiled.own.standing name) := (stands_iff hplain).mpr rfl
  cases hs : c.compiled.own.standing name with
  | absent =>
      rw [hs] at hstands
      obtain ⟨_, hadded, hremoved, hreplaced⟩ := hstands
      exact ⟨(NameRecord.recordedBy?_eq_none_iff _).mpr hadded,
        (NameRecord.recordedBy?_eq_none_iff _).mpr hremoved,
        (NameRecord.recordedBy?_eq_none_iff _).mpr hreplaced⟩
  | produced =>
      rw [hs] at hstands
      obtain ⟨⟨_, _, _, _, hmember, _⟩, _⟩ := hstands
      simp [h] at hmember
  | suppressed =>
      rw [hs] at hstands
      obtain ⟨⟨_, _, _, hmember, _⟩, _⟩ := hstands
      simp [h] at hmember
  | byHand =>
      rw [hs] at hstands
      obtain ⟨⟨_, _, hmember⟩, _⟩ := hstands
      simp [h] at hmember

theorem produced_of_added (hplain : c.Plain) (h : c.compiled.own.ledger.addedBy? name = some o) :
    c.Stands name .produced := by
  rw [stands_iff hplain, Layer.standing, h]
  rfl

theorem Stands.member?_isSome (h : c.Stands name .produced) :
    (c.compiled.own.member? name).isSome := by
  obtain ⟨⟨_, _, _, _, hmember, _⟩, _⟩ := h
  simp [hmember]

/-- The block that produced a member is the one that added its name. -/
theorem Stands.addedBy?_eq (h : c.Stands name .produced) {member : Member}
    (hmember : c.compiled.own.member? name = some member) :
    c.compiled.own.ledger.addedBy? name = some member.origin := by
  obtain ⟨⟨_, _, _, _, hmine, hadded⟩, _⟩ := h
  rw [hmember, Option.some.injEq] at hmine
  rw [hadded, hmine]

theorem byHand_of_ignores (hplain : c.Plain) (h : c.compiled.own.Ignores name)
    (hmember : (c.compiled.own.member? name).isSome) : c.Stands name .byHand := by
  rw [stands_iff hplain, Layer.standing]
  simp [h.added, h.removed, hmember]

/-- Where a name was declared by hand and is not on record, no ancestor had added it. -/
theorem unrelated_of_ignores (hplain : c.Plain) (h : c.compiled.own.Ignores name)
    (hmember : (c.compiled.own.member? name).isSome) :
    ∀ l ∈ c.compiled.ancestors, l.ledger.addedBy? name = none := by
  obtain ⟨_, _, _, hreplaced⟩ := byHand_of_ignores hplain h hmember
  rw [h.replaced] at hreplaced
  intro l hl
  by_contra hadded
  have hany : c.compiled.ancestors.any (fun layer => (layer.ledger.addedBy? name).isSome) := by
    exact List.any_eq_true.mpr ⟨l, hl, Option.isSome_iff_ne_none.mpr hadded⟩
  rw [if_pos hany] at hreplaced
  cases hreplaced

end Compilation

/-! ## What the provenance says of the winner -/

/-- An addition that counts for a type although it lost to an attribute declared by hand: the type
that declares the attribute stands in front but inherits it from nowhere, and no ledger in front of
the addition has the name. -/
structure Overlooked (e winner loser : Compilation) (name : String) : Prop where
  byHand : winner.Stands name .byHand
  unrelated : ∀ l ∈ winner.compiled.ancestors, l.ledger.addedBy? name = none
  produced : loser.Stands name .produced
  behind : [winner.compiled.own, loser.compiled.own].Sublist e.compiled.layers
  ignored : ∀ l, [l, loser.compiled.own].Sublist e.compiled.layers → l.Ignores name

/-- When the provenance names one who added a name and nobody who took it away. Either a block
produced the winning member and is the one that is named, or the winner was declared by hand and an
addition of another type is overlooked. -/
theorem Hierarchy.provenance_adds_iff {cs : List Compilation} (h : Hierarchy cs)
    (hplain : ∀ c ∈ cs, c.Plain) {e : Compilation} (he : e ∈ cs) {name : String} {owner : Layer}
    {member : Member} (hwins : e.compiled.member? name = some (owner, member)) :
    ∃ d ∈ cs, d.compiled.own = owner ∧ ∀ o, e.compiled.provenance name = ⟨some o, none⟩ ↔
      (d.Stands name .produced ∧ o = member.origin) ∨
      ∃ a ∈ cs, Overlooked e d a name ∧ a.compiled.own.ledger.addedBy? name = some o := by
  obtain ⟨hfirst, hmember⟩ := CompiledType.member?_eq_some_iff.mp hwins
  obtain ⟨d, hd, rfl, _⟩ := (h.chain he).made owner (List.mem_of_find?_eq_some hfirst)
  have hnodup : e.compiled.layers.Nodup := List.Nodup.of_map Layer.id (h.chain he).nodup
  refine ⟨d, hd, rfl, fun o => ?_⟩
  rw [CompiledType.provenance, CompiledType.provenanceAlong_eq_iff]
  constructor
  · rintro ⟨near, layer, far, hsplit, hnear, hadded, _, _⟩
    have hlayer : layer ∈ e.compiled.layers := by simp [hsplit]
    obtain ⟨a, ha, rfl, _⟩ := (h.chain he).made layer hlayer
    have hproduced := Compilation.produced_of_added (hplain a ha) hadded
    by_cases hsame : a = d
    · subst hsame
      have hby := hproduced.addedBy?_eq hmember
      rw [hadded, Option.some.injEq] at hby
      exact .inl ⟨hproduced, hby⟩
    · right
      have hne : a.compiled.own ≠ d.compiled.own := by
        intro hown
        exact hsame (h.eq_of_id ha hd (congrArg Layer.id hown))
      have hbehind : [d.compiled.own, a.compiled.own].Sublist e.compiled.layers :=
        sublist_of_find?_eq_some hfirst hlayer hproduced.member?_isSome hne
      have hignored : ∀ l, [l, a.compiled.own].Sublist e.compiled.layers → l.Ignores name := by
        intro l hl
        exact hnear l (Linearization.mem_before_of_sublist hnodup hsplit hl)
      have hwinner := hignored _ hbehind
      have hhas : (d.compiled.own.member? name).isSome := by simp [hmember]
      exact ⟨a, ha,
        { byHand := Compilation.byHand_of_ignores (hplain d hd) hwinner hhas
          unrelated := Compilation.unrelated_of_ignores (hplain d hd) hwinner hhas
          produced := hproduced
          behind := hbehind
          ignored := hignored }, hadded⟩
  · rintro (⟨hproduced, rfl⟩ | ⟨a, ha, hoverlooked, hadded⟩)
    · obtain ⟨_, near, far, hsplit, hnear⟩ := List.find?_eq_some_iff_append.mp hfirst
      have hby := hproduced.addedBy?_eq hmember
      obtain ⟨_, _, hremoved, hreplaced⟩ := hproduced
      refine ⟨near, d.compiled.own, far, hsplit, fun l hl => ?_, hby, hremoved, hreplaced⟩
      -- in front of the winner nobody has the member
      obtain ⟨c, hc, rfl, _⟩ := (h.chain he).made l (by simp [hsplit, hl])
      exact Compilation.ignores_of_member?_none (hplain c hc) (by simpa using hnear _ hl)
    · obtain ⟨_, _, hremoved, hreplaced⟩ := hoverlooked.produced
      have hlayer := hoverlooked.behind.mem (by simp : a.compiled.own ∈ _)
      obtain ⟨near, far, hsplit⟩ := List.append_of_mem hlayer
      refine ⟨near, a.compiled.own, far, hsplit, fun l hl => hoverlooked.ignored l ?_, hadded,
        hremoved, hreplaced⟩
      rw [hsplit]
      exact (List.singleton_sublist.mpr hl).append (by simp : [a.compiled.own].Sublist _)

/-! ## Two bases that know nothing of each other

One declares a value by hand, the other has a block that makes a method of that name. The type
built on both has the value, but its provenance has the method. -/

namespace Bystander

def left : Compilation :=
  .ofOk .builtIn 0 { name := "Left", members := [("go", .int 5)] } [] (by decide +kernel)

def right : Compilation :=
  .ofOk .builtIn 1
    { name := "Right"
      blocks := [{ identity := "Methods", entries := [("go", .str "tools.go")] }] }
    [] (by decide +kernel)

def both : Compilation :=
  .ofOk .builtIn 2 { name := "Both" } [left.compiled, right.compiled] (by decide +kernel)

theorem hierarchy : Hierarchy [both, right, left] := by
  refine .compile (.compile (.compile .empty ?_ ?_) ?_ ?_) ?_ ?_
  · simp
  · simp [left, Compilation.ofOk]
  · simp [left, right, Compilation.ofOk]
  · simp [right, Compilation.ofOk]
  · simp [left, right, both, Compilation.ofOk]
  · simp [both, Compilation.ofOk]

theorem plain : ∀ c ∈ [both, right, left], c.Plain := by
  simp only [List.mem_cons, List.not_mem_nil, or_false, forall_eq_or_imp, forall_eq]
  exact ⟨⟨rfl, rfl⟩, ⟨rfl, rfl⟩, ⟨rfl, rfl⟩⟩

/-- The value declared by hand is the one that both have. -/
theorem wins_both : ∃ owner member, both.compiled.member? "go" = some (owner, member) ∧
    owner.id = 0 ∧ member.origin = ⟨"Left::go", none⟩ := by
  have hwins : (both.compiled.member? "go").map (fun entry => (entry.1.id, entry.2.origin)) =
      some (0, ⟨"Left::go", none⟩) := by
    decide +kernel
  obtain ⟨⟨owner, member⟩, hmember, hentry⟩ := Option.map_eq_some_iff.mp hwins
  obtain ⟨hid, horigin⟩ := Prod.mk.inj hentry
  exact ⟨owner, member, hmember, hid, horigin⟩

theorem provenance_adds_iff_both :
    ∃ d ∈ [both, right, left], d.compiled.own.id = 0 ∧
      ∃ a ∈ [both, right, left], Overlooked both d a "go" ∧
        a.compiled.own.ledger.addedBy? "go" = some ⟨"Right.Methods", none⟩ := by
  obtain ⟨owner, member, hmember, hid, horigin⟩ := wins_both
  obtain ⟨d, hd, rfl, hiff⟩ :=
    hierarchy.provenance_adds_iff plain (e := both) List.mem_cons_self hmember
  refine ⟨d, hd, hid, ?_⟩
  rcases (hiff ⟨"Right.Methods", none⟩).mp (by decide +kernel) with ⟨_, hsame⟩ | hoverlooked
  · simp [horigin] at hsame
  · exact hoverlooked

/-- The provenance can name an adder, and nobody else, for a member of another origin. -/
theorem provenance_misses_winner :
    ¬ ∀ cs, Hierarchy cs → (∀ c ∈ cs, c.Plain) → ∀ e ∈ cs, ∀ name owner member o,
      e.compiled.member? name = some (owner, member) →
        e.compiled.provenance name = ⟨some o, none⟩ → o = member.origin := by
  intro hclaim
  obtain ⟨owner, member, hmember, _, horigin⟩ := wins_both
  have hsame := hclaim _ hierarchy plain both List.mem_cons_self "go" owner member
    ⟨"Right.Methods", none⟩ hmember (by decide +kernel)
  simp [horigin] at hsame

end Bystander

end AppAssembly
