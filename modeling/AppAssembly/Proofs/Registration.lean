import AppAssembly.Handler.Custom
import AppAssembly.Proofs.Drafts

/-!
# Handlers of one's own

Handlers are registered one after the other, next to the built-in ones or without them. Every
lower-case name is given away once, and the names stay in the order in which blocks are dispatched
(`registered`). A type is only compiled if the handlers of all its blocks have let them pass, and
what they offer is then on the type in the name of the block (`Compilation.handled`).
-/

namespace AppAssembly

open Compile

/-! ## Registries -/

namespace HandlerRegistry

variable {r next : HandlerRegistry} {h : Handler} {hs : List Handler}

/-- The names are in order, each once. -/
def Ordered (r : HandlerRegistry) : Prop :=
  r.names.Pairwise (· < ·)

theorem find?_insert (r : HandlerRegistry) (h : Handler) (name : String) :
    (r.insert h).find? name =
      if Text.lowercase h.name = Text.lowercase name then some h else r.find? name := by
  unfold find? insert
  split
  · rename_i hsame
    rw [← hsame, Entries.get?_insertSorted_self]
  · rename_i hother
    exact Entries.get?_insertSorted_of_ne h r.handlers hother

theorem Ordered.insert (hr : r.Ordered) (h : Handler) : (r.insert h).Ordered :=
  Entries.pairwise_insertSorted hr

theorem empty_ordered : empty.Ordered :=
  .nil

theorem builtIn_ordered : builtIn.Ordered := by
  have hfold : ∀ (hs : List Handler) {r : HandlerRegistry}, r.Ordered →
      (hs.foldl HandlerRegistry.insert r).Ordered := by
    intro hs
    induction hs with
    | nil => exact id
    | cons h hs ih => exact fun hr => ih (hr.insert h)
  exact hfold Handler.builtIn empty_ordered

theorem register_of_free (hfree : r.find? h.name = none) : r.register h = .ok (r.insert h) := by
  simp [register, contains, hfree]

theorem register_of_taken {other : Handler} (htaken : r.find? h.name = some other) :
    r.register h = .error (.developer (.handlerTwice (Text.lowercase h.name))) := by
  simp [register, contains, htaken]

theorem find?_insert_eq_none_iff {name : String} : (r.insert h).find? name = none ↔
    Text.lowercase h.name ≠ Text.lowercase name ∧ r.find? name = none := by
  rw [find?_insert]
  split <;> simp [*]

/-- The lower-case names under which handlers are registered. -/
def namesOf (hs : List Handler) : List String :=
  hs.map fun h => Text.lowercase h.name

/-- How registering handlers one after the other goes. -/
structure Registers (r : HandlerRegistry) (hs : List Handler) : Prop where
  /-- It succeeds exactly if the names are all different and free. -/
  ok_iff : (∃ next, hs.foldlM register r = .ok next) ↔
    (namesOf hs).Nodup ∧ ∀ h ∈ hs, r.find? h.name = none
  /-- If not, one of the names would be given away twice. -/
  error : ∀ e, hs.foldlM register r = .error e →
    ∃ name ∈ namesOf hs, e = .developer (.handlerTwice name)
  /-- Under a name, in any case, the handler that goes by it is found, or else the one that was
  found before. -/
  finds : ∀ next, hs.foldlM register r = .ok next → ∀ name found, next.find? name = some found ↔
    (found ∈ hs ∧ Text.lowercase found.name = Text.lowercase name) ∨ r.find? name = some found
  ordered : ∀ next, hs.foldlM register r = .ok next → r.Ordered → next.Ordered

theorem registers_nil (r : HandlerRegistry) : r.Registers [] where
  ok_iff := ⟨fun _ => ⟨.nil, nofun⟩, fun _ => ⟨r, rfl⟩⟩
  error := nofun
  finds := by
    rintro next ⟨⟩ name found
    simp
  ordered := by
    rintro next ⟨⟩ hr
    exact hr

/-- A handler whose name is taken is refused, and with it the rest. -/
theorem registers_taken {other : Handler} (htaken : r.find? h.name = some other) :
    r.Registers (h :: hs) := by
  have hrun : (h :: hs).foldlM register r =
      .error (.developer (.handlerTwice (Text.lowercase h.name))) := by
    rw [List.foldlM_cons, register_of_taken htaken]
    rfl
  refine ⟨⟨?_, ?_⟩, ?_, ?_, ?_⟩
  · rintro ⟨next, hnext⟩
    rw [hrun] at hnext
    cases hnext
  · rintro ⟨_, hfree⟩
    rw [hfree h List.mem_cons_self] at htaken
    cases htaken
  · intro e he
    rw [hrun] at he
    cases he
    exact ⟨_, List.mem_cons_self, rfl⟩
  · intro next hnext
    rw [hrun] at hnext
    cases hnext
  · intro next hnext
    rw [hrun] at hnext
    cases hnext

/-- Once a name is given away, the others are different and free exactly if all of them were. -/
theorem free_cons_iff (hfree : r.find? h.name = none) :
    ((namesOf hs).Nodup ∧ ∀ other ∈ hs, (r.insert h).find? other.name = none) ↔
      (namesOf (h :: hs)).Nodup ∧ ∀ other ∈ h :: hs, r.find? other.name = none := by
  simp only [namesOf, List.map_cons, List.nodup_cons, List.mem_map, List.forall_mem_cons, hfree,
    find?_insert_eq_none_iff, true_and]
  constructor
  · rintro ⟨hnodup, hothers⟩
    exact ⟨⟨fun ⟨other, hother, hsame⟩ => (hothers other hother).1 hsame.symm, hnodup⟩,
      fun other hother => (hothers other hother).2⟩
  · rintro ⟨⟨hnew, hnodup⟩, hothers⟩
    exact ⟨hnodup, fun other hother =>
      ⟨fun hsame => hnew ⟨other, hother, hsame.symm⟩, hothers other hother⟩⟩

/-- It makes no difference whether a handler is found among those to come or is registered. -/
theorem finds_cons_iff (hfree : r.find? h.name = none) {name : String} {found : Handler} :
    (found ∈ hs ∧ Text.lowercase found.name = Text.lowercase name) ∨
        (r.insert h).find? name = some found ↔
      (found ∈ h :: hs ∧ Text.lowercase found.name = Text.lowercase name) ∨
        r.find? name = some found := by
  rw [find?_insert]
  by_cases hsame : Text.lowercase h.name = Text.lowercase name
  · have hnone : r.find? name = none := by
      unfold find? at hfree ⊢
      rw [← hsame, hfree]
    simp only [hsame, if_true, hnone, List.mem_cons, Option.some.injEq, reduceCtorEq, or_false]
    constructor
    · rintro (⟨hmem, hname⟩ | rfl)
      · exact ⟨.inr hmem, hname⟩
      · exact ⟨.inl rfl, hsame⟩
    · rintro ⟨rfl | hmem, hname⟩
      · exact .inr rfl
      · exact .inl ⟨hmem, hname⟩
  · simp only [hsame, if_false, List.mem_cons]
    refine or_congr_left ⟨fun ⟨hmem, hname⟩ => ⟨.inr hmem, hname⟩, ?_⟩
    rintro ⟨rfl | hmem, hname⟩
    · exact absurd hname hsame
    · exact ⟨hmem, hname⟩

/-- After a handler whose name is free the rest is registered. -/
theorem Registers.cons (hrest : (r.insert h).Registers hs) (hfree : r.find? h.name = none) :
    r.Registers (h :: hs) := by
  have hrun : (h :: hs).foldlM register r = hs.foldlM register (r.insert h) := by
    rw [List.foldlM_cons, register_of_free hfree]
    rfl
  refine ⟨?_, ?_, ?_, ?_⟩
  · rw [hrun]
    exact hrest.ok_iff.trans (free_cons_iff hfree)
  · intro e he
    obtain ⟨name, hname, rfl⟩ := hrest.error e (hrun ▸ he)
    exact ⟨name, List.mem_cons_of_mem _ hname, rfl⟩
  · intro next hnext name found
    exact (hrest.finds next (hrun ▸ hnext) name found).trans (finds_cons_iff hfree)
  · intro next hnext hr
    exact hrest.ordered next (hrun ▸ hnext) (hr.insert h)

/-- Handlers are registered one after the other, up to the first one whose name is taken. -/
theorem registered (r : HandlerRegistry) (hs : List Handler) : r.Registers hs := by
  induction hs generalizing r with
  | nil => exact r.registers_nil
  | cons h hs ih =>
      cases hfind : r.find? h.name with
      | none => exact (ih (r.insert h)).cons hfind
      | some other => exact registers_taken hfind

example : builtIn.register (.inert "Attrs") = .error (.developer (.handlerTwice "attrs")) :=
  rfl

end HandlerRegistry

/-! ## What a handler does for a block -/

namespace Compilation

variable {c : Compilation} {b : Block}

/-- A block with a handler. Its flags make sense for the handler, the handler has not failed, and
under the name of each product is one of this name, in the name of the block. None of these names is
declared by hand. -/
theorem handled (hb : b ∈ c.spec.blocks) {h : Handler}
    (hfind : c.handlers.find? b.identity = some h) :
    ((b.extend = some false → h.extendable = true) ∧
      (b.nullifiesInherited = true → h.nullable = true)) ∧
    ∃ before products after, h.handle (c.site.declaration b) before = .ok (products, after) ∧
      ∀ name ∈ Entries.keys products, name ∉ c.spec.members.keys ∧
        ∃ content, (name, content) ∈ products ∧
          c.compiled.own.member? name = some ⟨content, b.origin c.spec.name⟩ := by
  refine ⟨c.flags_fit hb hfind, ?_⟩
  obtain ⟨made, draft, hdrafted⟩ := c.exists_drafted
  obtain ⟨products, hmade⟩ := hdrafted.exists_products hb
  obtain ⟨before, _, htakes⟩ := hdrafted.takes.exists_takes hmade
  obtain ⟨after, hanswers, _⟩ := htakes.exists_answers
  cases hanswers with
  | handled found handled =>
      obtain rfl := Option.some.inj (hfind.symm.trans found)
      exact ⟨before.ledger, products, after, handled, fun name hname =>
        hdrafted.member?_made hmade hname⟩
  | described unknown _ =>
      cases hfind.symm.trans unknown

end Compilation

/-! ## Handlers that offer something -/

namespace Handler

theorem Offer.nodup_products (offer : Offer) (name : String) {d : Declaration}
    (hdistinct : d.block.entries.keys.Nodup) : (Entries.keys (offer.products name d)).Nodup := by
  have hkeys : ∀ {f : String → String} {g : String × Value → Content}, Function.Injective f →
      (Entries.keys (d.block.entries.map fun entry => (f entry.1, g entry))).Nodup := by
    intro f g hf
    have hmap : Entries.keys (d.block.entries.map fun entry => (f entry.1, g entry)) =
        d.block.entries.keys.map f := by
      simp [Entries.keys, Function.comp_def]
    rw [hmap]
    exact hdistinct.map hf
  cases offer with
  | nothing => exact .nil
  | survey => exact List.nodup_singleton _
  | entries => exact hkeys fun _ _ => (String.append_right_inj _).mp
  | nulls | promises => exact hkeys Function.injective_id

end Handler

namespace Compilation

variable {c : Compilation} {b : Block} {name key : String} {extendable nullable : Bool}

/-- What a handler offers for a block is on the type. -/
theorem member?_offered (offer : Handler.Offer) (hb : b ∈ c.spec.blocks)
    (hfind : c.handlers.find? b.identity = some (.offering offer name extendable nullable))
    (hdistinct : b.entries.keys.Nodup) {content : Content}
    (hoffered : (key, content) ∈ offer.products name (c.site.declaration b)) :
    c.compiled.own.member? key = some ⟨content, b.origin c.spec.name⟩ := by
  obtain ⟨_, before, products, after, hhandle, hmembers⟩ := handled hb hfind
  cases hhandle
  obtain ⟨_, other, hother, hmember⟩ := hmembers key (List.mem_map_of_mem hoffered)
  have hnodup := offer.nodup_products name (d := c.site.declaration b) hdistinct
  cases List.inj_on_of_nodup_map hnodup hoffered hother rfl
  exact hmember

/-- What the single handlers put on a type for a block. -/
theorem members_offered (hb : b ∈ c.spec.blocks) (hdistinct : b.entries.keys.Nodup) :
    (c.handlers.find? b.identity = some (.prefixed name extendable nullable) →
      ∀ entry ∈ b.entries, c.compiled.own.member? (name ++ "_" ++ entry.1) =
        some ⟨.value entry.2, b.origin c.spec.name⟩) ∧
    (c.handlers.find? b.identity = some (.surveying name extendable nullable) →
      c.compiled.own.member? name =
        some ⟨.value (Handler.survey (c.site.declaration b)), b.origin c.spec.name⟩) ∧
    (c.handlers.find? b.identity = some (.removing name extendable nullable) →
      ∀ entry ∈ b.entries, c.compiled.own.member? entry.1 =
        some ⟨.value .null, b.origin c.spec.name⟩) ∧
    (c.handlers.find? b.identity = some (.deferring name extendable nullable) →
      ∀ entry ∈ b.entries, c.compiled.own.member? entry.1 =
        some ⟨.deferred, b.origin c.spec.name⟩) := by
  refine ⟨fun hfind entry hentry => ?_, fun hfind => ?_, fun hfind entry hentry => ?_,
    fun hfind entry hentry => ?_⟩
  · exact member?_offered .entries hb hfind hdistinct
      (List.mem_map.mpr ⟨entry, hentry, rfl⟩)
  · exact member?_offered .survey hb hfind hdistinct List.mem_cons_self
  · exact member?_offered .nulls hb hfind hdistinct
      (List.mem_map.mpr ⟨entry, hentry, rfl⟩)
  · exact member?_offered .promises hb hfind hdistinct
      (List.mem_map.mpr ⟨entry, hentry, rfl⟩)

/-- A type whose blocks are all left to inert handlers has nothing but what is declared by hand. -/
theorem member?_inert
    (hinert : ∀ b ∈ c.spec.blocks, ∃ name, c.handlers.find? b.identity = some (.inert name))
    (hkey : key ∉ c.spec.members.keys) : c.compiled.own.member? key = none := by
  obtain ⟨made, draft, hdrafted⟩ := c.exists_drafted
  refine hdrafted.member?_none hkey fun entry hentry => ?_
  obtain ⟨b, hb, hd⟩ := hdrafted.exists_block hentry
  obtain ⟨name, hfind⟩ := hinert b hb
  obtain ⟨_, _, htakes⟩ := hdrafted.takes.exists_takes hentry
  obtain ⟨_, hanswers, _⟩ := htakes.exists_answers
  rw [hd] at hanswers
  generalize entry.2 = products at hanswers
  cases hanswers with
  | handled found handled =>
      cases hfind.symm.trans found
      cases handled
      exact List.not_mem_nil
  | described unknown _ => cases hfind.symm.trans unknown

/-- No type was ever compiled with a block that its handler refuses. -/
theorem not_refusing (hb : b ∈ c.spec.blocks) :
    c.handlers.find? b.identity ≠ some (.refusing name extendable nullable) := by
  intro hfind
  obtain ⟨_, _, _, _, hhandle, _⟩ := handled hb hfind
  cases hhandle

end Compilation

end AppAssembly
