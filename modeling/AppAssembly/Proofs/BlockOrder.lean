import AppAssembly.Proofs.Blocks
import Mathlib.Data.List.Nodup

/-!
# The order in which blocks are written

Blocks are sorted before they are compiled: those with a handler by their lower-case names, the
others by the names as they are written. No two blocks that pass the check have the same lower-case
name, so neither sort has a choice, and whatever depends on the order in which blocks are taken, the
claims on names, the ledger and its one place for installers, depends on the blocks alone
(`compile_perm`).
-/

namespace AppAssembly

open Compile

/-! ## The check -/

theorem checkBlocks_cons_eq_ok_iff {typeName : String} {seen : Entries String String} {b : Block}
    {rest : List Block} : checkBlocks typeName seen (b :: rest) = .ok () ↔
      b.invalid = [] ∧ seen.get? (Text.lowercase b.identity) = none ∧
        checkBlocks typeName (seen.insert (Text.lowercase b.identity) b.identity) rest =
          .ok () := by
  rw [checkBlocks]
  by_cases hinvalid : b.invalid = []
  · cases hseen : seen.get? (Text.lowercase b.identity) with
    | none => simp [hinvalid]
    | some first => simp [hinvalid]
  · simp [hinvalid]

/-- Blocks pass the check exactly if all flags could be read, and their names differ in more than
case from each other and from those before. -/
theorem checkBlocks_eq_ok_iff {typeName : String} {seen : Entries String String}
    {blocks : List Block} : checkBlocks typeName seen blocks = .ok () ↔
      (∀ b ∈ blocks, b.invalid = []) ∧
      (blocks.map fun b => Text.lowercase b.identity).Nodup ∧
      ∀ b ∈ blocks, seen.get? (Text.lowercase b.identity) = none := by
  constructor
  · intro h
    refine ⟨?_, checkBlocks_eq_ok h⟩
    induction blocks generalizing seen with
    | nil => simp
    | cons b rest ih =>
        obtain ⟨hinvalid, _, hrest⟩ := checkBlocks_cons_eq_ok_iff.mp h
        exact List.forall_mem_cons.mpr ⟨hinvalid, ih hrest⟩
  · rintro ⟨hinvalid, hnodup, hseen⟩
    induction blocks generalizing seen with
    | nil => rfl
    | cons b rest ih =>
        obtain ⟨hb, hinvalid⟩ := List.forall_mem_cons.mp hinvalid
        obtain ⟨hunseen, hseen⟩ := List.forall_mem_cons.mp hseen
        rw [List.map_cons, List.nodup_cons] at hnodup
        refine checkBlocks_cons_eq_ok_iff.mpr ⟨hb, hunseen, ih hinvalid hnodup.2 ?_⟩
        -- the name of the first block is none of those that follow
        intro c hc
        rw [Entries.get?_insert_of_ne]
        · exact hseen c hc
        · intro hname
          exact hnodup.1 (List.mem_map.mpr ⟨c, hc, hname.symm⟩)

theorem checkBlocks_eq_ok_perm (typeName : String) {blocks others : List Block}
    (h : blocks.Perm others) :
    checkBlocks typeName [] blocks = .ok () ↔ checkBlocks typeName [] others = .ok () := by
  rw [checkBlocks_eq_ok_iff, checkBlocks_eq_ok_iff, (h.map _).nodup_iff]
  simp only [h.mem_iff]

/-! ## The sorts -/

/-- Elements with distinct keys can be sorted by them in one way only. -/
theorem mergeSort_eq_of_perm {α : Type} {key : α → String} {le : α → α → Bool}
    (hle : ∀ a b, le a b = true ↔ key a ≤ key b) {l m : List α} (h : l.Perm m)
    (hnodup : (m.map key).Nodup) : l.mergeSort le = m.mergeSort le := by
  have hsorted : ∀ l : List α, (l.mergeSort le).Pairwise fun a b => le a b = true := by
    intro l
    refine List.pairwise_mergeSort (fun a b c hab hbc => ?_) (fun a b => ?_) l
    · exact (hle a c).mpr (String.le_trans ((hle a b).mp hab) ((hle b c).mp hbc))
    · rw [Bool.or_eq_true, hle, hle]
      exact String.le_total (key a) (key b)
  have hperm := (List.mergeSort_perm l le).trans (h.trans (List.mergeSort_perm m le).symm)
  refine hperm.eq_of_pairwise (fun a b ha hb hab hba => ?_) (hsorted l) (hsorted m)
  have ha : a ∈ m := h.mem_iff.mp ((List.mergeSort_perm l le).mem_iff.mp ha)
  have hb : b ∈ m := (List.mergeSort_perm m le).mem_iff.mp hb
  exact List.inj_on_of_nodup_map hnodup ha hb
    (String.le_antisymm ((hle a b).mp hab) ((hle b a).mp hba))

section

variable {blocks others : List Block} (h : blocks.Perm others)
  (hnodup : (others.map fun b => Text.lowercase b.identity).Nodup)
include h hnodup

theorem knownBlocks_perm (handlers : HandlerRegistry) :
    knownBlocks handlers blocks = knownBlocks handlers others := by
  unfold knownBlocks
  refine mergeSort_eq_of_perm (fun a b => decide_eq_true_iff) (h.filter _) ?_
  exact hnodup.sublist (List.filter_sublist.map _)

/-- Names that differ in more than case differ. -/
theorem customBlocks_perm (handlers : HandlerRegistry) :
    customBlocks handlers blocks = customBlocks handlers others := by
  have hnames : (others.map Block.identity).Nodup := by
    refine List.Nodup.of_map Text.lowercase ?_
    rw [List.map_map]
    exact hnodup
  unfold customBlocks
  refine mergeSort_eq_of_perm (fun a b => decide_eq_true_iff) (h.filter _) ?_
  exact hnames.sublist (List.filter_sublist.map _)

end

/-! ## Compiling -/

/-- The order in which blocks are written makes no difference. They pass the check in every order or
in none, and if they do, compiling ends in the same way: with the same layer or the same error. -/
theorem compile_perm (handlers : HandlerRegistry) (layer : Nat) (spec : TypeSpec)
    (bases : List CompiledType) {blocks : List Block} (h : blocks.Perm spec.blocks) :
    (checkBlocks spec.name [] blocks = .ok () ↔ checkBlocks spec.name [] spec.blocks = .ok ()) ∧
    (checkBlocks spec.name [] spec.blocks = .ok () →
      compile handlers layer { spec with blocks := blocks } bases =
        compile handlers layer spec bases) := by
  have haccepted := checkBlocks_eq_ok_perm spec.name h
  refine ⟨haccepted, fun hcheck => ?_⟩
  obtain ⟨_, hnodup, _⟩ := checkBlocks_eq_ok_iff.mp hcheck
  have hknown := knownBlocks_perm h hnodup handlers
  have hcustom := customBlocks_perm h hnodup handlers
  unfold compile
  dsimp only
  rw [haccepted.mpr hcheck, hcheck, hknown, hcustom]
  rfl

/-! ## Two blocks for one place

A type may declare its installers once. Which of two blocks is refused does not depend on which of
them is written first. -/

namespace Twice

def first : Block :=
  { identity := "Install", entries := [("disk", .str "disk")] }

def second : Block :=
  { identity := "installers", extend := some false }

def cache : Block :=
  { identity := "Cache", mainType := some ⟨.given 0, "Cache", [], [], none, .constant (.int 3)⟩ }

def spec : TypeSpec :=
  { name := "Shop", blocks := [first, second, cache] }

theorem knownBlocks_spec : knownBlocks .builtIn spec.blocks = [first, second] := by
  have hfilter : spec.blocks.filter (fun b => HandlerRegistry.builtIn.contains b.identity) =
      [first, second] := by
    rfl
  unfold knownBlocks
  rw [hfilter]
  exact List.mergeSort_of_pairwise (by decide +kernel)

/-- The second block is refused, as it comes later in the order of the names. -/
theorem compile_perm_spec :
    (compile .builtIn 0 { spec with blocks := [cache, second, first] } []).map (fun _ => ()) =
      .error (.developer (.installersTwice (second.origin "Shop") (first.origin "Shop"))) := by
  have hperm : [cache, second, first].Perm spec.blocks := List.reverse_perm [first, second, cache]
  rw [(compile_perm .builtIn 0 spec [] hperm).2 (by decide +kernel), compile, knownBlocks_spec]
  decide +kernel

end Twice

end AppAssembly
