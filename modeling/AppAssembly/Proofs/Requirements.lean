import AppAssembly.Proofs.Demands
import AppAssembly.Proofs.Lineage

/-!
# Requires blocks on a line

A requires block that does not want what it inherits hides it: for every key of its inherited block
that it does not declare anew, it records a requirement without paths. A type then checks what the
ledgers of all its layers come to, the first mention of an identity deciding. The keys of the merged
blocks are the only link between the two. It holds because nothing is checked on a type that is not
a key of its nearest merged block (`Line.key_of_required`), so a block that hides its inherited keys
hides everything behind it. What is checked in the end is found by searching the declarations alone
(`Line.requirements_settled`).
-/

namespace AppAssembly

open Compile

/-! ## What a requires block records -/

/-- The paths that an entry of a requires block lists. -/
def Value.listedPaths : Value → List String
  | .str path => [path]
  | .list items => items.filterMap Value.str?
  | _ => []

namespace Handler

variable {d : Declaration} {key : String} {v : Value}

theorem pathsOf_eq_ok {items : List Value} {paths : List String} (h : pathsOf items = .ok paths) :
    paths = items.filterMap Value.str? := by
  induction items generalizing paths with
  | nil =>
      cases h
      rfl
  | cons item rest ih =>
      cases item with
      | str path =>
          unfold pathsOf at h
          cases hrest : pathsOf rest with
          | error e =>
              rw [hrest] at h
              cases h
          | ok others =>
              rw [hrest] at h
              cases h
              rw [ih hrest]
              rfl
      | _ => cases h

theorem requiredPaths_eq_ok {paths : List String} (h : requiredPaths d key v = .ok paths) :
    paths = v.listedPaths := by
  cases v with
  | str path =>
      cases h
      rfl
  | null =>
      cases h
      rfl
  | list items =>
      unfold requiredPaths at h
      dsimp only at h
      split at h
      · rename_i hpaths
        cases h
        exact pathsOf_eq_ok hpaths
      · cases h
  | _ => cases h

/-- A block is recorded only if all its entries can be read. -/
theorem askedPaths_of_recordRequired {entries : Entries String Value} {l after : Ledger}
    (h : recordRequired d l entries = .ok after) (hentry : (key, v) ∈ entries) :
    d.askedPaths key v = v.listedPaths := by
  induction entries generalizing l with
  | nil => cases hentry
  | cons entry rest ih =>
      obtain ⟨first, w⟩ := entry
      unfold recordRequired at h
      cases hpaths : requiredPaths d first w with
      | error e =>
          simp only [hpaths] at h
          cases h
      | ok paths =>
          simp only [hpaths] at h
          rcases List.mem_cons.mp hentry with heq | hentry
          · cases heq
            rw [Declaration.askedPaths, hpaths]
            exact requiredPaths_eq_ok hpaths
          · exact ih h hentry

/-- Inherited keys are dropped by a block that cuts them off and does not declare them. -/
theorem mem_droppedRequirements : key ∈ droppedRequirements d ↔
    (d.block.nullifiesInherited = true ∨ d.block.mergesInherited = false) ∧
      (d.inherited.entries.get? key).isSome ∧ d.block.entries.get? key = none := by
  unfold droppedRequirements
  split
  · rename_i hcut
    simp only [Bool.or_eq_true, Bool.not_eq_true'] at hcut
    simp [hcut, Entries.get?_isSome_iff, Entries.contains]
  · rename_i hcut
    simp only [Bool.or_eq_true, Bool.not_eq_true'] at hcut
    simp [hcut]

end Handler

/-- What a requires block records: first what it hides, then what it declares. -/
def Declaration.required (d : Declaration) : List Requirement :=
  (Handler.droppedRequirements d).map (fun key => ⟨[], key, d.origin⟩) ++
    d.block.entries.map fun (key, v) => ⟨v.listedPaths, key, d.origin⟩

theorem BlockKind.ofName_requires {name : String} (h : Text.lowercase name = "requires") :
    ofName name = requires := by
  unfold ofName
  rw [h]
  rfl

theorem Handler.requires_records {d : Declaration} {l after : Ledger} {products : Products}
    (hname : Text.lowercase d.block.identity = "requires")
    (h : requires.handle d l = .ok (products, after)) :
    products = [] ∧ after.requirements = l.requirements ++ d.required := by
  have hkind : d.block.kind = .requires := BlockKind.ofName_requires hname
  obtain ⟨hproducts, hrecords⟩ := requires_contributes hkind h
  refine ⟨?_, ?_⟩
  · rw [hproducts, Declaration.products, hkind]
  · -- the handler would have refused an entry that can't be read
    have hread : ∀ entry ∈ d.block.entries, d.askedPaths entry.1 entry.2 = entry.2.listedPaths := by
      intro entry hentry
      unfold requires at h
      dsimp only at h
      split at h
      · rename_i hrecorded
        exact askedPaths_of_recordRequired hrecorded hentry
      · cases h
    have hdeclared : (d.block.entries.map fun (key, v) =>
        (⟨d.askedPaths key v, key, d.origin⟩ : Requirement)) =
          d.block.entries.map fun (key, v) => ⟨v.listedPaths, key, d.origin⟩ := by
      refine List.map_congr_left fun entry hentry => ?_
      show (⟨d.askedPaths entry.1 entry.2, _, _⟩ : Requirement) = _
      rw [hread entry hentry]
    rw [hrecords.requirements, Declaration.demands, hkind, Declaration.required, ← hdeclared]

theorem HandlerRegistry.Answers.requires {handlers : HandlerRegistry} {d : Declaration}
    {l after : Ledger} {products : Products}
    (hfind : handlers.find? d.block.identity = some Handler.requires)
    (hname : Text.lowercase d.block.identity = "requires")
    (h : handlers.Answers d l products after) :
    after.requirements ++ markers d.origin products = l.requirements ++ d.required := by
  cases h with
  | handled found handled =>
      obtain rfl := Option.some.inj (hfind.symm.trans found)
      obtain ⟨rfl, hrequirements⟩ := Handler.requires_records hname handled
      rw [hrequirements]
      exact List.append_nil _
  | described unknown _ =>
      rw [unknown] at hfind
      cases hfind

/-- What a requires block says about an identity: it declares it or hides it, or says nothing. -/
theorem Declaration.find?_required (d : Declaration) (key : String) :
    d.required.find? (fun r => r.identity = key) =
      match d.block.entries.get? key with
      | some v => some ⟨v.listedPaths, key, d.origin⟩
      | none => if key ∈ Handler.droppedRequirements d then some ⟨[], key, d.origin⟩ else none := by
  have hdropped : ∀ keys : List String,
      (keys.map fun key => (⟨[], key, d.origin⟩ : Requirement)).find? (fun r => r.identity = key) =
        if key ∈ keys then some ⟨[], key, d.origin⟩ else none := by
    intro keys
    induction keys with
    | nil => rfl
    | cons first rest ih =>
        by_cases hfirst : first = key
        · simp [hfirst]
        · simp [hfirst, Ne.symm hfirst, ih]
  have hdeclared : ∀ entries : Entries String Value,
      (entries.map fun (key, v) => (⟨v.listedPaths, key, d.origin⟩ : Requirement)).find?
          (fun r => r.identity = key) =
        (entries.get? key).map fun v => ⟨v.listedPaths, key, d.origin⟩ := by
    intro entries
    induction entries with
    | nil => rfl
    | cons entry rest ih =>
        obtain ⟨first, v⟩ := entry
        by_cases hfirst : first = key
        · simp [hfirst, Entries.get?_cons]
        · simp [hfirst, Entries.get?_cons, ih]
  rw [required, List.find?_append, hdropped, hdeclared]
  cases hentry : d.block.entries.get? key with
  | none => simp
  | some v =>
      have hkept : key ∉ Handler.droppedRequirements d := by
        intro hmem
        have hnone := (Handler.mem_droppedRequirements.mp hmem).2.2
        rw [hentry] at hnone
        cases hnone
      simp [hkept]

/-! ## Types on which nothing else records requirements -/

/-- Whatever answers to a declaration, the requirements on record stay as they are. -/
def HandlerRegistry.AsksNothing (handlers : HandlerRegistry) (d : Declaration) : Prop :=
  ∀ l products after, handlers.Answers d l products after →
    after.requirements ++ markers d.origin products = l.requirements

/-- On a type only the requires block records requirements. -/
structure Compilation.RequiresOnly (c : Compilation) : Prop where
  handler : c.handlers.find? "requires" = some Handler.requires
  unwritten : c.spec.ledger.requirements = []
  byHand : c.spec.demands = []
  others : ∀ b ∈ c.spec.blocks, Text.lowercase b.identity ≠ "requires" →
    c.handlers.AsksNothing (c.site.declaration b)

/-- With the built-in handlers this comes to what the other blocks ask for. -/
theorem Compilation.requiresOnly_of_builtIn {c : Compilation} (hbuiltIn : c.handlers = .builtIn)
    (hunwritten : c.spec.ledger.requirements = []) (hbyHand : c.spec.demands = [])
    (hothers : ∀ b ∈ c.spec.blocks, Text.lowercase b.identity ≠ "requires" →
      (c.site.declaration b).demands = [] ∧
        markers (c.site.declaration b).origin (c.site.declaration b).products = []) :
    c.RequiresOnly where
  handler := by
    rw [hbuiltIn, HandlerRegistry.find?_builtIn]
    rfl
  unwritten := hunwritten
  byHand := hbyHand
  others := by
    intro b hb hname l products after hanswers
    have hanswered : c.handlers.IsBuiltInFor (c.site.declaration b).block := isBuiltInFor hbuiltIn b
    obtain ⟨rfl, hrecords⟩ := hanswers.contributes hanswered
    obtain ⟨hdemands, hmarkers⟩ := hothers b hb hname
    rw [hrecords.requirements, hdemands, hmarkers, List.append_nil, List.append_nil]

/-- The requirements on record grow by what every declaration adds. -/
theorem Compile.Draft.TakesAll.requirements_eq {handlers : HandlerRegistry} {draft last : Draft}
    {made : List (Declaration × Products)} {adds : Declaration → List Requirement}
    (hadds : ∀ entry ∈ made, ∀ l after, handlers.Answers entry.1 l entry.2 after →
      after.requirements ++ markers entry.1.origin entry.2 = l.requirements ++ adds entry.1)
    (h : draft.TakesAll handlers made last) :
    last.ledger.requirements = draft.ledger.requirements ++ (made.map Prod.fst).flatMap adds := by
  induction h with
  | done => simp
  | @next draft middle last d products made first _ ih =>
      obtain ⟨after, hanswers, hledger⟩ := first.exists_answers
      have hmiddle : middle.ledger.requirements = draft.ledger.requirements ++ adds d := by
        rw [← hadds _ List.mem_cons_self _ _ hanswers, hledger]
        rfl
      rw [ih fun entry hentry => hadds entry (List.mem_cons_of_mem _ hentry), hmiddle,
        List.append_assoc]
      rfl

/-- If one key is all that counts, a single element does. -/
theorem flatMap_eq_of_nodup {α β κ : Type} {key : α → κ} {f : α → List β} {l : List α} {a : α}
    (hnodup : (l.map key).Nodup) (ha : a ∈ l) (hothers : ∀ b ∈ l, key b ≠ key a → f b = []) :
    l.flatMap f = f a := by
  obtain ⟨before, after, rfl⟩ := List.append_of_mem ha
  rw [List.map_append, List.map_cons, List.nodup_middle, List.nodup_cons] at hnodup
  have hnone : ∀ b ∈ before ++ after, f b = [] := by
    intro b hb
    refine hothers b ?_ fun hkey => hnodup.1 ?_
    · rcases List.mem_append.mp hb with hb | hb
      · exact List.mem_append_left _ hb
      · exact List.mem_append_right _ (List.mem_cons_of_mem a hb)
    · rw [← hkey, ← List.map_append]
      exact List.mem_map_of_mem hb
  rw [List.flatMap_append, List.flatMap_cons,
    List.flatMap_eq_nil_iff.mpr fun b hb => hnone b (List.mem_append_left _ hb),
    List.flatMap_eq_nil_iff.mpr fun b hb => hnone b (List.mem_append_right _ hb)]
  simp

theorem lowercase_requires : Text.lowercase "requires" = "requires" := by
  decide +kernel

/-- What a block records on a type on which only the requires block records requirements. -/
def Declaration.addsRequired (d : Declaration) : List Requirement :=
  if Text.lowercase d.block.identity = "requires" then d.required else []

namespace Compilation.RequiresOnly

variable {c : Compilation}

theorem answers_add (h : c.RequiresOnly) {b : Block} (hb : b ∈ c.spec.blocks) {l after : Ledger}
    {products : Products} (hanswers : c.handlers.Answers (c.site.declaration b) l products after) :
    after.requirements ++ markers (c.site.declaration b).origin products =
      l.requirements ++ (c.site.declaration b).addsRequired := by
  by_cases hname : Text.lowercase b.identity = "requires"
  · have hfind : c.handlers.find? b.identity = some Handler.requires := by
      rw [HandlerRegistry.find?_congr (hname.trans lowercase_requires.symm)]
      exact h.handler
    have hadd : (c.site.declaration b).addsRequired = (c.site.declaration b).required :=
      if_pos hname
    rw [hadd]
    exact hanswers.requires hfind hname
  · have hadd : (c.site.declaration b).addsRequired = [] := if_neg hname
    rw [h.others b hb hname l products after hanswers, hadd, List.append_nil]

/-- What a layer records is what its requires block does. -/
theorem own_requirements (h : c.RequiresOnly) :
    c.compiled.own.ledger.requirements =
      match c.declaration? "requires" with
      | some b => (c.site.declaration b).required
      | none => [] := by
  obtain ⟨made, draft, hdrafted⟩ := c.exists_drafted
  have hadds : ∀ entry ∈ made, ∀ l after, c.handlers.Answers entry.1 l entry.2 after →
      after.requirements ++ markers entry.1.origin entry.2 =
        l.requirements ++ entry.1.addsRequired := by
    intro entry hentry l after hanswers
    obtain ⟨b, hb, hd⟩ := hdrafted.exists_block hentry
    rw [hd] at hanswers ⊢
    exact h.answers_add hb hanswers
  have hperm := dispatched_perm c.handlers c.spec.blocks
  have hown : c.compiled.own.ledger.requirements =
      (knownBlocks c.handlers c.spec.blocks ++ customBlocks c.handlers c.spec.blocks).flatMap
        fun b => (c.site.declaration b).addsRequired := by
    rw [hdrafted.ledger]
    show draft.ledger.requirements ++ c.spec.demands = _
    have hstart : (Draft.start c.spec).ledger.requirements = [] := h.unwritten
    rw [hdrafted.takes.requirements_eq hadds, hstart, h.byHand, hdrafted.declarations,
      List.flatMap_map, List.nil_append, List.append_nil]
  rw [hown]
  cases hdeclared : c.declaration? "requires" with
  | none =>
      have hnone := List.find?_eq_none.mp hdeclared
      refine List.flatMap_eq_nil_iff.mpr fun b hb => if_neg fun hname => ?_
      refine hnone b (hperm.mem_iff.mp hb) ?_
      exact decide_eq_true (hname.trans lowercase_requires.symm)
  | some b =>
      obtain ⟨hb, hname⟩ := declaration?_eq_some hdeclared
      have hname : Text.lowercase b.identity = "requires" := hname.trans lowercase_requires
      have hnodup : ((knownBlocks c.handlers c.spec.blocks ++
          customBlocks c.handlers c.spec.blocks).map fun b => Text.lowercase b.identity).Nodup :=
        (hperm.map _).nodup_iff.mpr c.blocks_nodup
      rw [flatMap_eq_of_nodup hnodup (hperm.mem_iff.mpr hb)]
      · exact if_pos hname
      · exact fun other _ hother => if_neg fun hsame => hother (hsame.trans hname.symm)

end Compilation.RequiresOnly

/-! ## Searching the declarations -/

/-- Whether a requires block has the last word on an identity: it declares it, or cuts off what is
behind it. -/
def Block.settles (b : Block) (key : String) : Bool :=
  b.entries.contains key || !b.mergesInherited || b.nullifiesInherited

/-- Whether a type's requires block has the last word on an identity. -/
def Compilation.settles (c : Compilation) (key : String) : Bool :=
  (c.declaration? "requires").any fun b => b.settles key

/-- What the first type on a line that settles an identity asks for under it, if it does. -/
def required? (line : List Compilation) (key : String) : Option Requirement :=
  (line.find? fun c => c.settles key).bind fun c =>
    (c.declaration? "requires").bind fun b =>
      (b.entries.get? key).bind fun v =>
        if v.listedPaths.isEmpty then none else some ⟨v.listedPaths, key, b.origin c.spec.name⟩

/-- What the layers of a line record first about an identity. -/
def mentioned? (line : List Compilation) (key : String) : Option Requirement :=
  line.findSome? fun c => c.compiled.own.ledger.requirements.find? fun r => r.identity = key

section

variable {line : List Compilation} {c : Compilation} {b : Block} {key : String}

theorem required?_of_not_declared (h : c.declaration? "requires" = none) :
    required? (c :: line) key = required? line key := by
  have hpasses : c.settles key = false := by
    rw [Compilation.settles, h]
    rfl
  rw [required?, List.find?_cons_of_neg (by simp [hpasses]), required?]

theorem required?_of_declared (h : c.declaration? "requires" = some b) :
    required? (c :: line) key =
      if b.settles key then
        (b.entries.get? key).bind fun v =>
          if v.listedPaths.isEmpty then none else some ⟨v.listedPaths, key, b.origin c.spec.name⟩
      else required? line key := by
  have hsettles : c.settles key = b.settles key := by
    rw [Compilation.settles, h]
    rfl
  unfold required?
  rw [List.find?_cons, hsettles]
  cases b.settles key with
  | false => rfl
  | true => simp [h]

theorem mentioned?_cons : mentioned? (c :: line) key =
    (c.compiled.own.ledger.requirements.find? fun r => r.identity = key).or
      (mentioned? line key) := by
  rw [mentioned?, List.findSome?_cons]
  cases c.compiled.own.ledger.requirements.find? fun r => r.identity = key <;> rfl

theorem Block.keepsInherited_requires {handlers : HandlerRegistry}
    (hname : Text.lowercase b.identity = Text.lowercase "requires")
    (hrequires : handlers.find? "requires" = some Handler.requires) :
    b.keepsInherited handlers = b.mergesInherited := by
  rw [keepsInherited, HandlerRegistry.find?_congr hname, hrequires]
  rfl

/-- What remains of an identity in front of what is behind: what the block says itself if it settles
the identity, and else what is behind. What a block cuts off without hiding it is nothing. -/
theorem Declaration.find?_required_or {d : Declaration} {behind : Option Requirement}
    (hbehind : (behind.filter fun r => !r.isSuppression).isSome →
      (d.inherited.entries.get? key).isSome) :
    ((d.required.find? fun r => r.identity = key).or behind).filter (fun r => !r.isSuppression) =
      if d.block.settles key then
        (d.block.entries.get? key).bind fun v =>
          if v.listedPaths.isEmpty then none else some ⟨v.listedPaths, key, d.origin⟩
      else behind.filter fun r => !r.isSuppression := by
  rw [find?_required]
  cases hentry : d.block.entries.get? key with
  | some v =>
      have hsettles : d.block.settles key = true := by
        simp [Block.settles, Entries.contains, hentry]
      rw [if_pos hsettles]
      cases hpaths : v.listedPaths with
      | nil => simp [Requirement.isSuppression, Option.filter, hpaths]
      | cons path rest =>
          dsimp only
          rw [Option.some_or, Option.bind_some, hpaths]
          rfl
  | none =>
      dsimp only
      by_cases hcut : d.block.nullifiesInherited = true ∨ d.block.mergesInherited = false
      · have hsettles : d.block.settles key = true := by
          rcases hcut with hcut | hcut <;> simp [Block.settles, hcut]
        rw [if_pos hsettles]
        by_cases hdropped : key ∈ Handler.droppedRequirements d
        · simp [hdropped, Requirement.isSuppression, Option.filter]
        · -- nothing is inherited under the key, so nothing behind asks for it
          rw [if_neg hdropped, Option.none_or, Option.bind_none]
          cases hrequired : behind.filter fun r => !r.isSuppression with
          | none => rfl
          | some r =>
              have hkey := hbehind (by rw [hrequired]; rfl)
              exact absurd (Handler.mem_droppedRequirements.mpr ⟨hcut, hkey, hentry⟩) hdropped
      · have hsettles : ¬ d.block.settles key = true := by
          simpa [Block.settles, Entries.contains, hentry, and_comm] using hcut
        have hkept : key ∉ Handler.droppedRequirements d :=
          fun hmem => hcut (Handler.mem_droppedRequirements.mp hmem).1
        rw [if_neg hsettles, if_neg hkept, Option.none_or]

/-- Whatever is asked for on a line is a key of the nearest merged block. This is what a block goes
by that hides what it inherits. -/
theorem Line.key_of_required (h : Line line) (honly : ∀ d ∈ line, d.RequiresOnly)
    (hrequired : (required? line key).isSome) :
    ((nearest? line "requires").bind fun merged => merged.entries.get? key).isSome := by
  induction h with
  | empty => cases hrequired
  | @extend line c h fresh base ih =>
      have hbehind := ih fun d hd => honly d (List.mem_cons_of_mem c hd)
      cases hdeclared : c.declaration? "requires" with
      | none =>
          rw [required?_of_not_declared hdeclared] at hrequired
          rw [nearest?_of_not_declared hdeclared]
          exact hbehind hrequired
      | some b =>
          rw [required?_of_declared hdeclared] at hrequired
          obtain ⟨_, hname⟩ := Compilation.declaration?_eq_some hdeclared
          obtain ⟨merged, hblock, hentries⟩ := Compilation.block?_of_declaration? hdeclared
          rw [nearest?_of_declared hblock, Option.bind_some, hentries, Site.mergedEntries,
            Block.keepsInherited_requires hname (honly c List.mem_cons_self).handler]
          by_cases hsettles : b.settles key = true
          · -- the block declares the key itself
            rw [if_pos hsettles, Option.isSome_bind] at hrequired
            have hentry : (b.entries.get? key).isSome := by
              cases hget : b.entries.get? key with
              | none => simp [hget] at hrequired
              | some v => rfl
            split
            · rw [Entries.get?_isSome_iff] at hentry
              obtain ⟨v, _, hv⟩ := Entries.exists_get?_overlay hentry
                (inheritedBlock c.site.bases c.site.ancestors b.identity).entries
              rw [hv]
              rfl
            · exact hentry
          · rw [if_neg hsettles] at hrequired
            have hmerges : b.mergesInherited = true := by
              simp only [Block.settles, Bool.or_eq_true, not_or, Bool.not_eq_true',
                Bool.not_eq_false] at hsettles
              exact hsettles.1.2
            have hinherited := h.inherited_get? c.spec.name c.layer hname key
            rw [← (Line.extend h fresh base).site] at hinherited
            rw [if_pos hmerges, Entries.get?_overlay, Option.isSome_or]
            have hkey := hbehind hrequired
            rw [← hinherited] at hkey
            exact Bool.or_eq_true_iff.mpr (.inr hkey)

/-- What the ledgers come to is what the declarations say. -/
theorem Line.mentioned?_eq (h : Line line) (honly : ∀ d ∈ line, d.RequiresOnly) :
    (mentioned? line key).filter (fun r => !r.isSuppression) = required? line key := by
  induction h with
  | empty => rfl
  | @extend line c h fresh base ih =>
      have honly' : ∀ d ∈ line, d.RequiresOnly := fun d hd => honly d (List.mem_cons_of_mem c hd)
      have hbehind := ih honly'
      have hown := (honly c List.mem_cons_self).own_requirements
      rw [mentioned?_cons, hown]
      cases hdeclared : c.declaration? "requires" with
      | none =>
          rw [required?_of_not_declared hdeclared]
          exact hbehind
      | some b =>
          obtain ⟨_, hname⟩ := Compilation.declaration?_eq_some hdeclared
          have hinherited := h.inherited_get? c.spec.name c.layer hname key
          rw [← (Line.extend h fresh base).site] at hinherited
          rw [required?_of_declared hdeclared, ← hbehind]
          refine Declaration.find?_required_or (d := c.site.declaration b) fun hrequired => ?_
          have hkey := h.key_of_required honly' (hbehind ▸ hrequired)
          rwa [← hinherited] at hkey

end

/-- Requires blocks on a line. A type checks a requirement exactly if the first type from it on up
that declares the identity, or cuts off what its requires block inherits, declares it with paths.
The paths and the origin are those of that type, and no identity is checked twice. -/
theorem Line.requirements_settled {line : List Compilation} {c : Compilation}
    (h : Line (c :: line)) (honly : ∀ d ∈ c :: line, d.RequiresOnly) :
    (c.compiled.requirements.map Requirement.identity).Nodup ∧
    ∀ r, r ∈ c.compiled.requirements ↔
      ∃ d b v, (c :: line).find? (fun e => e.settles r.identity) = some d ∧
        d.declaration? "requires" = some b ∧ b.entries.get? r.identity = some v ∧
        v.listedPaths ≠ [] ∧ r = ⟨v.listedPaths, r.identity, b.origin d.spec.name⟩ := by
  constructor
  · exact (nodup_map_firstBy Requirement.identity _).sublist (List.filter_sublist.map _)
  intro r
  have hwalk : c.compiled.layers.flatMap (fun layer => layer.ledger.requirements) =
      (c :: line).flatMap fun d => d.compiled.own.ledger.requirements := by
    rw [h.layers, List.flatMap_map]
  have hmem : r ∈ c.compiled.requirements ↔ required? (c :: line) r.identity = some r := by
    unfold CompiledType.requirements
    rw [List.mem_filter, mem_firstBy_iff, hwalk, List.find?_flatMap, ← h.mentioned?_eq honly,
      Option.filter_eq_some_iff]
    rfl
  rw [hmem, required?]
  constructor
  · intro hr
    obtain ⟨d, hd, hr⟩ := Option.bind_eq_some_iff.mp hr
    obtain ⟨b, hb, hr⟩ := Option.bind_eq_some_iff.mp hr
    obtain ⟨v, hv, hr⟩ := Option.bind_eq_some_iff.mp hr
    split at hr
    · cases hr
    · rename_i hpaths
      exact ⟨d, b, v, hd, hb, hv, by simpa using hpaths, (Option.some.inj hr).symm⟩
  · rintro ⟨d, b, v, hd, hb, hv, hpaths, hr⟩
    rw [hd, Option.bind_some, hb, Option.bind_some, hv, Option.bind_some,
      if_neg (by simpa using hpaths), ← hr]

/-! ## A cut above a cut

The middle drops what the root requires, and the upper type nulls out what the middle requires. The
dropped keys are not in the block that the upper type inherits. -/

namespace Cuts

def powered : Block :=
  { identity := "requires",
    entries := [("power", .str "main.power"), ("disk", .list [.str "disk.a", .str "disk.b"])] }

def dropping : Block :=
  { identity := "Requires", extend := some false, entries := [("tape", .str "tape")] }

def nulling : Block :=
  { identity := "REQUIRES", nullifyInherited := some true,
    entries := [("port", .list [.str "port"])] }

def renewing : Block :=
  { identity := "requires", entries := [("power", .list [.str "spare"]), ("lamp", .null)] }

def cache : Block :=
  { identity := "Cache", mainType := some ⟨.given 0, "Cache", [], [], none, .constant (.int 3)⟩ }

def root : Compilation :=
  .ofOk .builtIn 0 { name := "Root", blocks := [cache, powered] } [] (by decide +kernel)

def middle : Compilation :=
  .ofOk .builtIn 1 { name := "Middle", blocks := [dropping] } (tip [root]) (by decide +kernel)

def upper : Compilation :=
  .ofOk .builtIn 2 { name := "Upper", blocks := [nulling] } (tip [middle, root]) (by decide +kernel)

def leaf : Compilation :=
  .ofOk .builtIn 3 { name := "Leaf", blocks := [renewing] } (tip [upper, middle, root])
    (by decide +kernel)

theorem line : Line [leaf, upper, middle, root] := by
  refine .extend (.extend (.extend (.extend .empty ?_ rfl) ?_ rfl) ?_ rfl) ?_ rfl
  · simp
  · simp [root, middle, Compilation.ofOk]
  · simp [root, middle, upper, Compilation.ofOk]
  · simp [root, middle, upper, leaf, Compilation.ofOk]

theorem requiresOnly : ∀ c ∈ [leaf, upper, middle, root], c.RequiresOnly := by
  have hlower : ∀ b ∈ [powered, dropping, nulling, renewing],
      Text.lowercase b.identity = "requires" := by
    decide +kernel
  simp only [List.mem_cons, List.not_mem_nil, or_false, forall_eq_or_imp, forall_eq] at hlower ⊢
  obtain ⟨hpowered, hdropping, hnulling, hrenewing⟩ := hlower
  refine ⟨Compilation.requiresOnly_of_builtIn rfl rfl rfl ?_,
    Compilation.requiresOnly_of_builtIn rfl rfl rfl ?_,
    Compilation.requiresOnly_of_builtIn rfl rfl rfl ?_,
    Compilation.requiresOnly_of_builtIn rfl rfl rfl ?_⟩
  · intro b hb hne
    obtain rfl := List.mem_singleton.mp hb
    exact absurd hrenewing hne
  · intro b hb hne
    obtain rfl := List.mem_singleton.mp hb
    exact absurd hnulling hne
  · intro b hb hne
    obtain rfl := List.mem_singleton.mp hb
    exact absurd hdropping hne
  · intro b hb hne
    rcases List.mem_cons.mp hb with rfl | hb
    · decide +kernel
    · obtain rfl := List.mem_singleton.mp hb
      exact absurd hpowered hne

theorem requirements_settled_leaf :
    (leaf.compiled.requirements.map Requirement.identity).Nodup ∧
    (⟨["spare"], "power", renewing.origin "Leaf"⟩ : Requirement) ∈ leaf.compiled.requirements ∧
    (⟨["port"], "port", nulling.origin "Upper"⟩ : Requirement) ∈ leaf.compiled.requirements ∧
    ∀ r ∈ leaf.compiled.requirements, r.identity ≠ "tape" ∧ r.identity ≠ "disk" := by
  obtain ⟨hnodup, hchecked⟩ := line.requirements_settled requiresOnly
  refine ⟨hnodup, ?_, ?_, ?_⟩
  · exact (hchecked _).mpr ⟨leaf, renewing, _, rfl, rfl, rfl, by decide, rfl⟩
  · exact (hchecked _).mpr ⟨upper, nulling, _, rfl, rfl, rfl, by decide, rfl⟩
  · -- the upper type settles both, without declaring them
    have hcut : ∀ key, [leaf, upper, middle, root].find? (fun e => e.settles key) = some upper →
        nulling.entries.get? key = none → ∀ r ∈ leaf.compiled.requirements, r.identity ≠ key := by
      rintro key hfind hundeclared r hr rfl
      obtain ⟨d, b, v, hd, hb, hv, _⟩ := (hchecked r).mp hr
      obtain rfl := Option.some.inj (hfind.symm.trans hd)
      obtain rfl : nulling = b := Option.some.inj hb
      rw [hundeclared] at hv
      cases hv
    exact fun r hr => ⟨hcut "tape" rfl rfl r hr, hcut "disk" rfl rfl r hr⟩

end Cuts

end AppAssembly
