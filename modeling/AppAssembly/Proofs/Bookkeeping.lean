import AppAssembly.Proofs.Drafts

/-!
# How a name stands with a layer

On a layer that the built-in handlers filled, a name is absent, was produced by a block, was
suppressed by one, or was declared by hand. The ledger and the members of the layer say the same
about it, and what they say tells the four apart (`Compilation.stands_iff`).
-/

namespace AppAssembly

open Compile

/-! ## What the ledger of a layer says -/

/-- Compiled with the built-in handlers and a ledger of its own. -/
structure Compilation.Plain (c : Compilation) : Prop where
  builtIn : c.handlers = .builtIn
  unwritten : c.spec.ledger = {}

namespace Compile.Draft.Takes

variable {draft next : Draft} {d : Declaration} {products : Products} {name : String}

theorem keeps_addedBy? (h : draft.Takes .builtIn d products next)
    (hname : name ∉ Entries.keys products) :
    next.ledger.addedBy? name = draft.ledger.addedBy? name := by
  obtain ⟨rfl, hnotes⟩ := h.notes
  rw [hnotes.addedBy?, if_neg hname]

theorem keeps_removedBy? (h : draft.Takes .builtIn d products next)
    (hname : name ∉ Entries.keys products) :
    next.ledger.removedBy? name = draft.ledger.removedBy? name := by
  obtain ⟨rfl, hnotes⟩ := h.notes
  unfold Ledger.removedBy?
  rw [hnotes.removed]
  refine NameRecord.recordedBy?_add_of_not_mem _ _ fun hsuppressed => hname ?_
  exact Declaration.mem_keys_products_of_mem_suppressed hsuppressed

end Compile.Draft.Takes

namespace Compilation.Drafted

variable {c : Compilation} {made : List (Declaration × Products)} {draft : Draft} {name : String}

theorem addedBy?_eq (h : c.Drafted made draft) :
    c.compiled.own.ledger.addedBy? name =
      if (c.compiled.own.ledger.removedBy? name).isSome ∨
        (c.compiled.own.ledger.replacedBy? name).isSome then none
      else draft.ledger.addedBy? name := by
  rw [h.ledger]
  exact Ledger.addedBy?_normalise _

theorem removedBy?_eq (h : c.Drafted made draft) :
    c.compiled.own.ledger.removedBy? name = draft.ledger.removedBy? name := by
  rw [h.ledger]
  rfl

/-- A name is replaced if it was declared by hand over what an ancestor's block added. -/
theorem replacedBy?_eq (h : c.Drafted made draft) (hplain : c.Plain) :
    c.compiled.own.ledger.replacedBy? name =
      if name ∈ c.spec.members.keys ∧ (draft.ledger.addedBy? name).isNone ∧
          c.compiled.ancestors.any fun layer => (layer.ledger.addedBy? name).isSome
      then some c.spec.origin else none := by
  have htakes := h.takes
  rw [hplain.builtIn] at htakes
  have hempty : draft.ledger.replaced = [] := by
    rw [htakes.notes.1]
    show c.spec.ledger.replaced = []
    rw [hplain.unwritten]
  rw [h.ledger]
  show (draft.ledger.replaced.add c.spec.origin _).recordedBy? name = _
  rw [hempty, NameRecord.recordedBy?_add_of_none rfl]
  simp only [replacedNames, List.mem_filter, Bool.and_eq_true]

theorem not_recorded (h : c.Drafted made draft) (hplain : c.Plain)
    (hname : ∀ entry ∈ made, name ∉ Entries.keys entry.2) :
    draft.ledger.addedBy? name = none ∧ draft.ledger.removedBy? name = none := by
  have htakes := h.takes
  rw [hplain.builtIn] at htakes
  have hstart : (Draft.start c.spec).ledger = {} := hplain.unwritten
  constructor
  · rw [htakes.keeps (fun draft => draft.ledger.addedBy? name)
      (fun _ _ => Draft.Takes.keeps_addedBy?) hname, hstart]
    rfl
  · rw [htakes.keeps (fun draft => draft.ledger.removedBy? name)
      (fun _ _ => Draft.Takes.keeps_removedBy?) hname, hstart]
    rfl

/-- The block that makes a name adds it, and is named for removing it if it suppresses it. -/
theorem recorded_made (h : c.Drafted made draft) (hplain : c.Plain) {d : Declaration}
    {products : Products} (hmem : (d, products) ∈ made) (hname : name ∈ Entries.keys products) :
    draft.ledger.addedBy? name = some d.origin ∧
      draft.ledger.removedBy? name = if name ∈ d.suppressed then some d.origin else none := by
  have htakes := h.takes
  rw [hplain.builtIn] at htakes
  have hstart : (Draft.start c.spec).ledger = {} := hplain.unwritten
  constructor
  · obtain ⟨before, after, hstep, _, hlast⟩ := htakes.settled
      (fun draft => draft.ledger.addedBy? name) (fun _ _ => Draft.Takes.keeps_addedBy?) hmem hname
    obtain ⟨rfl, hnotes⟩ := hstep.notes
    rw [hlast, hnotes.addedBy?, if_pos hname]
  · obtain ⟨before, after, hstep, hfirst, hlast⟩ := htakes.settled
      (fun draft => draft.ledger.removedBy? name) (fun _ _ => Draft.Takes.keeps_removedBy?) hmem
      hname
    rw [hstart] at hfirst
    rw [hlast, Ledger.removedBy?, hstep.notes.2.removed]
    exact NameRecord.recordedBy?_add_of_none hfirst d.origin d.suppressed

end Compilation.Drafted

/-! ## The four ways to stand -/

/-- How a name stands with a layer. -/
inductive Standing where
  | absent
  | produced
  | suppressed
  | byHand
deriving DecidableEq, Repr

/-- What can be told about a name from a layer and its ledger. -/
def Layer.standing (l : Layer) (name : String) : Standing :=
  if (l.ledger.addedBy? name).isSome then .produced
  else if (l.ledger.removedBy? name).isSome then .suppressed
  else if (l.member? name).isSome then .byHand
  else .absent

/-- What each way to stand means: where the name comes from, which member has it, and who is named
for it in the ledger. -/
def Compilation.Stands (c : Compilation) (name : String) : Standing → Prop
  | .absent =>
      c.compiled.own.member? name = none ∧ name ∉ c.compiled.own.ledger.added.names ∧
        name ∉ c.compiled.own.ledger.removed.names ∧ name ∉ c.compiled.own.ledger.replaced.names
  | .produced =>
      (∃ b ∈ c.spec.blocks, ∃ content, (name, content) ∈ (c.site.declaration b).products ∧
        c.compiled.own.member? name = some ⟨content, b.origin c.spec.name⟩ ∧
        c.compiled.own.ledger.addedBy? name = some (b.origin c.spec.name)) ∧
      (∀ b ∈ c.spec.blocks, name ∉ (c.site.declaration b).suppressed) ∧
      c.compiled.own.ledger.removedBy? name = none ∧
      c.compiled.own.ledger.replacedBy? name = none
  | .suppressed =>
      (∃ b ∈ c.spec.blocks, name ∈ (c.site.declaration b).suppressed ∧
        c.compiled.own.member? name =
          some ⟨.value (.callable (.notImplemented c.layer name (b.origin c.spec.name))),
            b.origin c.spec.name⟩ ∧
        c.compiled.own.ledger.removedBy? name = some (b.origin c.spec.name)) ∧
      c.compiled.own.ledger.addedBy? name = none ∧
      c.compiled.own.ledger.replacedBy? name = none
  | .byHand =>
      (∃ v, (name, v) ∈ c.spec.members ∧
        c.compiled.own.member? name = some ⟨.value v, c.spec.memberOrigin name⟩) ∧
      c.compiled.own.ledger.addedBy? name = none ∧
      c.compiled.own.ledger.removedBy? name = none ∧
      c.compiled.own.ledger.replacedBy? name =
        if c.compiled.ancestors.any fun layer => (layer.ledger.addedBy? name).isSome
        then some c.spec.origin else none

namespace Compilation

variable {c : Compilation} {name : String}

theorem Stands.eq_standing {s : Standing} (h : c.Stands name s) :
    s = c.compiled.own.standing name := by
  unfold Layer.standing
  cases s with
  | absent =>
      obtain ⟨hmember, hadded, hremoved, _⟩ := h
      have hadded := (NameRecord.recordedBy?_eq_none_iff _).mpr hadded
      have hremoved := (NameRecord.recordedBy?_eq_none_iff _).mpr hremoved
      simp [Ledger.addedBy?, Ledger.removedBy?, hmember, hadded, hremoved]
  | produced =>
      obtain ⟨⟨b, _, _, _, _, hadded⟩, _⟩ := h
      simp [hadded]
  | suppressed =>
      obtain ⟨⟨b, _, _, _, hremoved⟩, hadded, _⟩ := h
      simp [hadded, hremoved]
  | byHand =>
      obtain ⟨⟨v, _, hmember⟩, hadded, hremoved, _⟩ := h
      simp [hadded, hremoved, hmember]

namespace Drafted

variable {made : List (Declaration × Products)} {draft : Draft}

theorem stands_byHand (h : c.Drafted made draft) (hplain : c.Plain)
    (hname : name ∈ c.spec.members.keys) : c.Stands name .byHand := by
  obtain ⟨hadded, hremoved⟩ := h.not_recorded hplain (h.not_made hname)
  refine ⟨h.member?_byHand hname, ?_, ?_, ?_⟩
  · rw [h.addedBy?_eq, hadded, ite_self]
  · rw [h.removedBy?_eq, hremoved]
  · rw [h.replacedBy?_eq hplain, hadded]
    simp [hname]

theorem stands_absent (h : c.Drafted made draft) (hplain : c.Plain)
    (hname : name ∉ c.spec.members.keys) (hmade : ∀ entry ∈ made, name ∉ Entries.keys entry.2) :
    c.Stands name .absent := by
  obtain ⟨hadded, hremoved⟩ := h.not_recorded hplain hmade
  have hadded' : c.compiled.own.ledger.addedBy? name = none := by
    rw [h.addedBy?_eq, hadded, ite_self]
  have hremoved' : c.compiled.own.ledger.removedBy? name = none := by
    rw [h.removedBy?_eq, hremoved]
  have hreplaced' : c.compiled.own.ledger.replacedBy? name = none := by
    rw [h.replacedBy?_eq hplain]
    simp [hname]
  refine ⟨h.member?_none hname hmade, ?_, ?_, ?_⟩
  · exact (NameRecord.recordedBy?_eq_none_iff _).mp hadded'
  · exact (NameRecord.recordedBy?_eq_none_iff _).mp hremoved'
  · exact (NameRecord.recordedBy?_eq_none_iff _).mp hreplaced'

/-- What a block makes is suppressed or produced, whichever it is. -/
theorem stands_made (h : c.Drafted made draft) (hplain : c.Plain) {b : Block}
    (hb : b ∈ c.spec.blocks) {products : Products}
    (hmem : (c.site.declaration b, products) ∈ made) (hname : name ∈ Entries.keys products) :
    c.Stands name
      (if name ∈ (c.site.declaration b).suppressed then .suppressed else .produced) := by
  obtain rfl : products = (c.site.declaration b).products :=
    h.takes.products_eq hmem (isBuiltInFor hplain.builtIn b)
  obtain ⟨hhand, content, hcontent, hmember⟩ := h.member?_made hmem hname
  obtain ⟨hadded, hremoved⟩ := h.recorded_made hplain hmem hname
  have hreplaced' : c.compiled.own.ledger.replacedBy? name = none := by
    rw [h.replacedBy?_eq hplain]
    simp [hhand]
  have hadded' : c.compiled.own.ledger.addedBy? name = _ := h.addedBy?_eq
  rw [hreplaced', h.removedBy?_eq, hremoved, hadded] at hadded'
  by_cases hsuppressed : name ∈ (c.site.declaration b).suppressed
  · rw [if_pos hsuppressed] at hremoved ⊢
    refine ⟨⟨b, hb, hsuppressed, ?_, ?_⟩, ?_, hreplaced'⟩
    · rw [hmember, Site.content_of_mem_suppressed hsuppressed hcontent]
      rfl
    · rw [h.removedBy?_eq, hremoved]
      rfl
    · simpa [hsuppressed] using hadded'
  · rw [if_neg hsuppressed] at hremoved ⊢
    have hremoved' : c.compiled.own.ledger.removedBy? name = none := by
      rw [h.removedBy?_eq, hremoved]
    refine ⟨⟨b, hb, content, hcontent, hmember, ?_⟩, fun other hother hsup => ?_, hremoved',
      hreplaced'⟩
    · show c.compiled.own.ledger.addedBy? name = some (c.site.declaration b).origin
      simpa [hsuppressed] using hadded'
    · -- a block that suppresses the name is on record for it
      obtain ⟨products, hmade⟩ := h.exists_products hother
      have hkey := Declaration.mem_keys_products_of_mem_suppressed hsup
      rw [← h.takes.products_eq hmade (isBuiltInFor hplain.builtIn other)] at hkey
      have := (h.recorded_made hplain hmade hkey).2
      rw [hremoved, if_pos hsup] at this
      cases this

end Drafted

/-- A name stands with the layer in the way that can be told from it, and in no other. -/
theorem stands_iff (hplain : c.Plain) {s : Standing} :
    c.Stands name s ↔ s = c.compiled.own.standing name := by
  refine ⟨Stands.eq_standing, ?_⟩
  rintro rfl
  obtain ⟨made, draft, h⟩ := c.exists_drafted
  have hstands : ∃ s, c.Stands name s := by
    by_cases hhand : name ∈ c.spec.members.keys
    · exact ⟨_, h.stands_byHand hplain hhand⟩
    by_cases hmade : ∃ entry ∈ made, name ∈ Entries.keys entry.2
    · obtain ⟨⟨d, products⟩, hmem, hname⟩ := hmade
      obtain ⟨b, hb, rfl⟩ := h.exists_block hmem
      exact ⟨_, h.stands_made hplain hb hmem hname⟩
    · refine ⟨_, h.stands_absent hplain hhand fun entry hentry hname => ?_⟩
      exact hmade ⟨entry, hentry, hname⟩
  obtain ⟨s, hs⟩ := hstands
  rwa [← hs.eq_standing]

end Compilation

/-- The ledger and the members agree on every layer of a hierarchy: a name stands with it in
exactly one of the four ways. -/
theorem Hierarchy.ledger_accounts {cs : List Compilation} (h : Hierarchy cs)
    (hplain : ∀ c ∈ cs, c.Plain) {c : Compilation} (hc : c ∈ cs) {layer : Layer}
    (hlayer : layer ∈ c.compiled.layers) (name : String) :
    ∃ d ∈ cs, d.compiled.own = layer ∧ ∃! s, d.Stands name s := by
  obtain ⟨d, hd, hown, _⟩ := (h.chain hc).made layer hlayer
  refine ⟨d, hd, hown, d.compiled.own.standing name, ?_, ?_⟩
  · exact (Compilation.stands_iff (hplain d hd)).mpr rfl
  · intro s hs
    exact hs.eq_standing

/-! ## A layer with all four

A type nulls out one attribute of its base and declares another one by hand. -/

namespace Takeover

def base : Compilation :=
  .ofOk .builtIn 0
    { name := "Base"
      blocks := [{ identity := "Attrs", entries := [("limit", .int 3), ("mode", .int 0)] }] }
    [] (by decide +kernel)

def derived : Compilation :=
  .ofOk .builtIn 1
    { name := "Derived"
      blocks := [{ identity := "attrs", entries := [("mode", .null), ("tools", .list [])] }]
      members := [("limit", .int 5)] }
    [base.compiled] (by decide +kernel)

theorem hierarchy : Hierarchy [derived, base] := by
  refine .compile (.compile .empty ?_ ?_) ?_ ?_
  · simp
  · simp [base, Compilation.ofOk]
  · simp [base, derived, Compilation.ofOk]
  · simp [derived, Compilation.ofOk]

theorem plain : ∀ c ∈ [derived, base], c.Plain := by
  simp only [List.mem_cons, List.not_mem_nil, or_false, forall_eq_or_imp, forall_eq]
  exact ⟨⟨rfl, rfl⟩, ⟨rfl, rfl⟩⟩

theorem ledger_accounts_derived :
    (∃ d ∈ [derived, base], d.compiled.own = derived.compiled.own ∧ ∃! s, d.Stands "mode" s) ∧
    ["tools", "mode", "limit", "go"].map derived.compiled.own.standing =
      [.produced, .suppressed, .byHand, .absent] ∧
    derived.compiled.own.ledger.replacedBy? "limit" = some ⟨"Derived", none⟩ := by
  refine ⟨?_, by decide +kernel, by decide +kernel⟩
  exact hierarchy.ledger_accounts plain List.mem_cons_self List.mem_cons_self "mode"

end Takeover

end AppAssembly
