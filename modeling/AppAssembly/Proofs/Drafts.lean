import AppAssembly.Proofs.Blocks
import AppAssembly.Proofs.Contributions
import AppAssembly.Proofs.NameRecords

/-!
# How a layer is filled

A draft takes one declaration after the other. Whatever answers to a declaration, its products get
names that nobody claimed before and that nobody else gets later (`TakesAll.apart`), so what stands
under a name is settled by the one declaration that has it (`TakesAll.settled`). Members written by
hand have their names from the start and come on top.
-/

namespace AppAssembly

open Compile

/-! ## Claims -/

theorem Claims.ensureFree_eq_ok {c : Claims} {origin : Origin} {names : List String}
    (h : c.ensureFree origin names = .ok ()) : ∀ name ∈ names, c.get? name = none := by
  intro name hname
  unfold ensureFree at h
  cases hconflicts : c.conflicts names with
  | cons first rest =>
      rw [hconflicts] at h
      cases h
  | nil =>
      have hfree := List.filterMap_eq_nil_iff.mp hconflicts name hname
      exact Option.map_eq_none_iff.mp hfree

theorem Claims.get?_byHand_isSome (c : Claims) {names : List (String × Origin)} {name : String}
    (h : name ∈ names.map Prod.fst) : (Entries.get? (c.byHand names) name).isSome := by
  obtain ⟨claim, _, hget⟩ : ∃ claim, _ ∧ Entries.get? (c.byHand names) name = some claim :=
    Entries.exists_get?_overlay (by simpa [Entries.keys, Function.comp_def] using h) c
  exact Option.isSome_iff_exists.mpr ⟨claim, hget⟩

theorem Claims.get?_generated (c : Claims) (names : List String) (origin : Origin)
    (name : String) :
    Entries.get? (c.generated names origin) name =
      if name ∈ names then some (.generated, origin) else Entries.get? c name :=
  Entries.get?_overlay_map c names (fun _ => (.generated, origin)) name

theorem Claims.get?_generated_isSome (c : Claims) (names : List String) (origin : Origin)
    (name : String) :
    (Entries.get? (c.generated names origin) name).isSome ↔
      name ∈ names ∨ (Entries.get? c name).isSome := by
  rw [get?_generated]
  by_cases hname : name ∈ names <;> simp [hname]

/-! ## One declaration -/

variable {handlers : HandlerRegistry} {d : Declaration} {products : Products}

/-- What answers to a block: its handler, or else a custom object. -/
inductive HandlerRegistry.Answers (handlers : HandlerRegistry) (d : Declaration) (l : Ledger) :
    Products → Ledger → Prop where
  | handled {h : Handler} {products : Products} {after : Ledger}
      (found : handlers.find? d.block.identity = some h)
      (handled : h.handle d l = .ok (products, after)) : Answers handlers d l products after
  | described {object : CustomObject} (unknown : handlers.find? d.block.identity = none)
      (described : customObject? d = some object) :
      Answers handlers d l [(object.identity, .deferred)]
        ((l.recordFactory object.factory object.identity d.origin).recordCustom object)

/-- Custom blocks have no handler. -/
theorem BlockKind.eq_custom {kind : BlockKind} (h : kind.handler? = none) : kind = .custom := by
  cases kind with
  | custom => rfl
  | _ => cases h

theorem HandlerRegistry.Answers.contributes {l after : Ledger}
    (hbuiltIn : handlers.IsBuiltInFor d.block) (h : handlers.Answers d l products after) :
    products = d.products ∧ d.Records l after := by
  cases h with
  | handled found handled =>
      rw [hbuiltIn] at found
      exact Handler.handle_contributes found handled
  | @described object unknown described =>
      rw [hbuiltIn] at unknown
      have hkind := BlockKind.eq_custom unknown
      have hidentity := (customObject?_eq_some described).1
      refine ⟨?_, ⟨?_, ?_, ?_, ?_, ?_, ?_⟩⟩
      · simp [Declaration.products, hkind, hidentity]
      · simp [Ledger.recordFactory_eq, Ledger.recordCustom]
      · simp [Ledger.recordFactory_eq, Ledger.recordCustom, Declaration.suppressed,
          BlockKind.putsEntries, NameRecord.add, hkind]
      · simp [Ledger.recordFactory_eq, Ledger.recordCustom]
      · simp [Ledger.recordFactory_eq, Ledger.recordCustom, Declaration.groups, hkind]
      · simp [Ledger.recordFactory_eq, Ledger.recordCustom, Declaration.objects, hkind, described]
      · simp [Ledger.recordFactory_eq, Ledger.recordCustom, Declaration.demands,
          Declaration.objects, hkind, described]

/-- What a draft is like after it took the products of a declaration. -/
structure Compile.Draft.Takes (handlers : HandlerRegistry) (draft : Draft) (d : Declaration)
    (products : Products) (next : Draft) : Prop where
  ledger : ∃ after, handlers.Answers d draft.ledger products after ∧
    next.ledger = (recordMarkers d.origin products after).recordAdded d.origin
      (Entries.keys products)
  free : ∀ name ∈ Entries.keys products, draft.claims.get? name = none
  claims : next.claims = draft.claims.generated (Entries.keys products) d.origin
  members : next.members = draft.members.overlay
    (Entries.mapValues (fun content => ⟨content, d.origin⟩) products)

theorem place_eq_ok {draft next : Draft} {origin : Origin} {products : Products}
    (h : draft.place origin products = .ok next) :
    (∀ name ∈ Entries.keys products, draft.claims.get? name = none) ∧
    next = { draft with
      members := draft.members.overlay
        (Entries.mapValues (fun content => ⟨content, origin⟩) products)
      ledger := (recordMarkers origin products draft.ledger).recordAdded origin
        (Entries.keys products)
      claims := draft.claims.generated (Entries.keys products) origin } := by
  unfold Draft.place at h
  obtain ⟨_, hfree, h⟩ := bind_eq_ok.mp h
  cases h
  exact ⟨Claims.ensureFree_eq_ok hfree, rfl⟩

theorem addKnown_takes {draft next : Draft} {h : Handler}
    (hfind : handlers.find? d.block.identity = some h) (hadd : draft.addKnown h d = .ok next) :
    ∃ products, draft.Takes handlers d products next := by
  unfold Draft.addKnown at hadd
  obtain ⟨_, _, hadd⟩ := bind_eq_ok.mp hadd
  obtain ⟨⟨products, after⟩, hhandle, hadd⟩ := bind_eq_ok.mp hadd
  obtain ⟨placed, hplaced, hadd⟩ := bind_eq_ok.mp hadd
  obtain ⟨hfree, rfl⟩ := place_eq_ok hplaced
  cases hadd
  exact ⟨products, ⟨after, .handled hfind hhandle, rfl⟩, hfree, rfl, rfl⟩

theorem addCustom_takes {draft next : Draft} (hfind : handlers.find? d.block.identity = none)
    (hadd : draft.addCustom d = .ok next) :
    ∃ products, draft.Takes handlers d products next := by
  unfold Draft.addCustom at hadd
  cases hobject : customObject? d with
  | none =>
      rw [hobject] at hadd
      cases hadd
  | some object =>
      rw [hobject] at hadd
      obtain ⟨placed, hplaced, hadd⟩ := bind_eq_ok.mp hadd
      obtain ⟨hfree, rfl⟩ := place_eq_ok hplaced
      cases hadd
      -- the object is recorded after its name; the two are written to different parts
      exact ⟨_, ⟨_, .described hfind hobject, rfl⟩, hfree, rfl, rfl⟩

namespace Compile.Draft.Takes

variable {draft next : Draft} {name : String}

/-- What answered to the declaration, and what placing the products added to the ledger. -/
theorem exists_answers (h : draft.Takes handlers d products next) :
    ∃ after, handlers.Answers d draft.ledger products after ∧
      next.ledger = Ledger.recordAdded
        { after with requirements := after.requirements ++ markers d.origin products }
        d.origin (Entries.keys products) := by
  obtain ⟨after, hanswers, hledger⟩ := h.ledger
  rw [recordMarkers_eq] at hledger
  exact ⟨after, hanswers, hledger⟩

theorem products_eq (h : draft.Takes handlers d products next)
    (hbuiltIn : handlers.IsBuiltInFor d.block) : products = d.products := by
  obtain ⟨after, hanswers, _⟩ := h.exists_answers
  exact (hanswers.contributes hbuiltIn).1

theorem keeps_member (h : draft.Takes handlers d products next)
    (hname : name ∉ Entries.keys products) : next.members.get? name = draft.members.get? name := by
  rw [h.members, Entries.get?_overlay_of_not_mem]
  simpa [Entries.keys, Entries.mapValues] using hname

theorem member (h : draft.Takes handlers d products next) (hname : name ∈ Entries.keys products) :
    ∃ content, (name, content) ∈ products ∧
      next.members.get? name = some ⟨content, d.origin⟩ := by
  have hkey : name ∈ Entries.keys
      (Entries.mapValues (fun content => (⟨content, d.origin⟩ : Member)) products) := by
    simpa [Entries.keys, Entries.mapValues] using hname
  obtain ⟨member, hmember, hget⟩ := Entries.exists_get?_overlay hkey draft.members
  obtain ⟨⟨key, content⟩, hcontent, heq⟩ := List.mem_map.mp hmember
  cases heq
  exact ⟨content, hcontent, h.members ▸ hget⟩

end Compile.Draft.Takes

/-! ## One after the other -/

/-- What becomes of a draft that takes some declarations, each with its products. -/
inductive Compile.Draft.TakesAll (handlers : HandlerRegistry) :
    Draft → List (Declaration × Products) → Draft → Prop where
  | done {draft : Draft} : TakesAll handlers draft [] draft
  | next {draft middle last : Draft} {d : Declaration} {products : Products}
      {made : List (Declaration × Products)} (first : draft.Takes handlers d products middle)
      (rest : TakesAll handlers middle made last) :
      TakesAll handlers draft ((d, products) :: made) last

namespace Compile.Draft.TakesAll

variable {draft middle last : Draft} {made more : List (Declaration × Products)} {name : String}

theorem append (h : TakesAll handlers draft made middle) (h' : TakesAll handlers middle more last) :
    TakesAll handlers draft (made ++ more) last := by
  induction h with
  | done => exact h'
  | next first _ ih => exact .next first (ih h')

/-- What a step leaves alone unless it takes the name is left alone by all steps that don't. -/
theorem keeps {α : Type} (view : Draft → α)
    (hview : ∀ entry ∈ made, ∀ {before after}, before.Takes handlers entry.1 entry.2 after →
      name ∉ Entries.keys entry.2 → view after = view before)
    (h : TakesAll handlers draft made last)
    (hname : ∀ entry ∈ made, name ∉ Entries.keys entry.2) : view last = view draft := by
  induction h with
  | done => rfl
  | next first _ ih =>
      rw [ih (fun entry hentry => hview entry (List.mem_cons_of_mem _ hentry))
        fun entry hentry => hname entry (List.mem_cons_of_mem _ hentry)]
      exact hview _ List.mem_cons_self first (hname _ List.mem_cons_self)

theorem exists_takes (h : TakesAll handlers draft made last) (hmem : (d, products) ∈ made) :
    ∃ before after : Draft, before.Takes handlers d products after := by
  induction h with
  | done => cases hmem
  | next first _ ih =>
      rcases List.mem_cons.mp hmem with heq | hmem
      · cases heq
        exact ⟨_, _, first⟩
      · exact ih hmem

theorem products_eq (h : TakesAll handlers draft made last) (hmem : (d, products) ∈ made)
    (hbuiltIn : handlers.IsBuiltInFor d.block) : products = d.products := by
  obtain ⟨_, _, htakes⟩ := h.exists_takes hmem
  exact htakes.products_eq hbuiltIn

/-- A name that is claimed stays so, and no declaration gets it any more. -/
theorem claimed (h : TakesAll handlers draft made last) (hname : (draft.claims.get? name).isSome) :
    (last.claims.get? name).isSome ∧ ∀ entry ∈ made, name ∉ Entries.keys entry.2 := by
  induction h with
  | done => exact ⟨hname, by simp⟩
  | @next draft middle last d products made first _ ih =>
      have hmiddle : (middle.claims.get? name).isSome := by
        rw [first.claims, Claims.get?_generated_isSome]
        exact .inr hname
      obtain ⟨hlast, hrest⟩ := ih hmiddle
      refine ⟨hlast, fun entry hentry => ?_⟩
      rcases List.mem_cons.mp hentry with rfl | hentry
      · intro hmem
        rw [first.free name hmem] at hname
        cases hname
      · exact hrest entry hentry

/-- The moment at which a declaration is taken. Nobody before or after it gets one of its names. -/
theorem apart (h : TakesAll handlers draft made last) (hmem : (d, products) ∈ made)
    (hname : name ∈ Entries.keys products) :
    ∃ near far before after, made = near ++ (d, products) :: far ∧
      TakesAll handlers draft near before ∧ before.Takes handlers d products after ∧
      TakesAll handlers after far last ∧
      (∀ entry ∈ near, name ∉ Entries.keys entry.2) ∧
      ∀ entry ∈ far, name ∉ Entries.keys entry.2 := by
  induction h with
  | done => cases hmem
  | @next draft middle last own produced made first rest ih =>
      rcases List.mem_cons.mp hmem with heq | hmem
      · cases heq
        have hclaimed : (middle.claims.get? name).isSome := by
          rw [first.claims, Claims.get?_generated_isSome]
          exact .inl hname
        exact ⟨[], made, draft, middle, rfl, .done, first, rest, by simp,
          (rest.claimed hclaimed).2⟩
      · obtain ⟨near, far, before, after, rfl, hnear, htakes, hfar, hbefore, hafter⟩ := ih hmem
        refine ⟨(own, produced) :: near, far, before, after, rfl, .next first hnear, htakes, hfar,
          ?_, hafter⟩
        intro entry hentry
        rcases List.mem_cons.mp hentry with rfl | hentry
        · -- what the first one got is claimed when this declaration comes
          intro hown
          have hclaimed : (middle.claims.get? name).isSome := by
            rw [first.claims, Claims.get?_generated_isSome]
            exact .inl hown
          exact (rest.claimed hclaimed).2 _ hmem hname
        · exact hbefore entry hentry

/-- What stands under a name of a declaration was settled when that was taken. -/
theorem settled {α : Type} (view : Draft → α)
    (hview : ∀ entry ∈ made, ∀ {before after}, before.Takes handlers entry.1 entry.2 after →
      name ∉ Entries.keys entry.2 → view after = view before)
    (h : TakesAll handlers draft made last) (hmem : (d, products) ∈ made)
    (hname : name ∈ Entries.keys products) :
    ∃ before after, before.Takes handlers d products after ∧ view before = view draft ∧
      view last = view after := by
  obtain ⟨near, far, before, after, rfl, hnear, htakes, hfar, hbefore, hafter⟩ := h.apart hmem hname
  refine ⟨before, after, htakes, hnear.keeps view (fun entry hentry => ?_) hbefore,
    hfar.keeps view (fun entry hentry => ?_) hafter⟩
  · exact hview entry (List.mem_append_left _ hentry)
  · exact hview entry (List.mem_append_right _ (List.mem_cons_of_mem _ hentry))

end Compile.Draft.TakesAll

/-! ## A compilation -/

theorem addAllKnown_takesAll {site : Site} {draft next : Draft} {bs : List Block}
    (hknown : ∀ b ∈ bs, handlers.contains b.identity = true)
    (h : draft.addAllKnown handlers site bs = .ok next) :
    ∃ made, made.map Prod.fst = bs.map site.declaration ∧ draft.TakesAll handlers made next := by
  induction bs generalizing draft with
  | nil =>
      cases h
      exact ⟨[], rfl, .done⟩
  | cons b rest ih =>
      obtain ⟨handler, hfind⟩ := Option.isSome_iff_exists.mp (hknown b List.mem_cons_self)
      obtain ⟨middle, hadd, h⟩ := addAllKnown_cons_ok h
      obtain ⟨products, hfirst⟩ :=
        addKnown_takes (d := site.declaration b) hfind (hadd handler hfind)
      obtain ⟨made, hmade, hrest⟩ := ih (fun c hc => hknown c (List.mem_cons_of_mem b hc)) h
      exact ⟨(site.declaration b, products) :: made, by simp [hmade], .next hfirst hrest⟩

theorem addAllCustom_takesAll {site : Site} {draft next : Draft} {bs : List Block}
    (hcustom : ∀ b ∈ bs, handlers.find? b.identity = none)
    (h : draft.addAllCustom site bs = .ok next) :
    ∃ made, made.map Prod.fst = bs.map site.declaration ∧ draft.TakesAll handlers made next := by
  induction bs generalizing draft with
  | nil =>
      cases h
      exact ⟨[], rfl, .done⟩
  | cons b rest ih =>
      have hfind := hcustom b List.mem_cons_self
      unfold Draft.addAllCustom at h
      obtain ⟨middle, hadd, h⟩ := bind_eq_ok.mp h
      obtain ⟨products, hfirst⟩ := addCustom_takes (d := site.declaration b) hfind hadd
      obtain ⟨made, hmade, hrest⟩ := ih (fun c hc => hcustom c (List.mem_cons_of_mem b hc)) h
      exact ⟨(site.declaration b, products) :: made, by simp [hmade], .next hfirst hrest⟩

/-- What the callables declared by hand ask for. -/
def TypeSpec.demands (s : TypeSpec) : List Requirement :=
  s.members.flatMap fun (name, v) => demand v.requiredPaths name (s.memberOrigin name)

theorem addByHand_ledger (draft : Draft) (s : TypeSpec) :
    (draft.addByHand s).ledger =
      { draft.ledger with requirements := draft.ledger.requirements ++ s.demands } := by
  have hfold : ∀ (members : Entries String Value) (l : Ledger),
      members.foldl (fun l (name, v) => l.recordMarker v name (s.memberOrigin name)) l =
        { l with
          requirements := l.requirements ++ members.flatMap fun (name, v) =>
            demand v.requiredPaths name (s.memberOrigin name) } := by
    intro members
    induction members with
    | nil => simp
    | cons entry rest ih =>
        intro l
        rw [List.foldl_cons, ih, List.flatMap_cons]
        simp [Ledger.recordMarker_eq]
  exact hfold s.members draft.ledger

/-- How a layer came about: what was made of each block, and the draft that was left in the end. -/
structure Compilation.Drafted (c : Compilation) (made : List (Declaration × Products))
    (draft : Draft) : Prop where
  declarations : made.map Prod.fst =
    (knownBlocks c.handlers c.spec.blocks ++ customBlocks c.handlers c.spec.blocks).map
      c.site.declaration
  takes : (Draft.start c.spec).TakesAll c.handlers made draft
  members : c.compiled.own.members = draft.members.overlay
    (c.spec.members.map fun (name, v) => (name, ⟨.value v, c.spec.memberOrigin name⟩))
  ledger : c.compiled.own.ledger =
    ({ draft.ledger with
        requirements := draft.ledger.requirements ++ c.spec.demands }.recordReplaced
      c.spec.origin (replacedNames c.spec c.compiled.ancestors draft.ledger)).normalise

theorem Compilation.exists_drafted (c : Compilation) : ∃ made draft, c.Drafted made draft := by
  obtain ⟨_, _, known, draft, hknown, hcustom, hown⟩ := compile_eq_ok c.result
  obtain ⟨made, hmade, htakes⟩ :=
    addAllKnown_takesAll (fun b hb => (mem_knownBlocks.mp hb).2) hknown
  obtain ⟨more, hmore, htakes'⟩ :=
    addAllCustom_takesAll (fun b hb => (mem_customBlocks.mp hb).2) hcustom
  refine ⟨made ++ more, draft, ?_, htakes.append htakes', ?_, ?_⟩
  · rw [List.map_append, hmade, hmore, List.map_append]
    rfl
  · rw [hown]
    rfl
  · rw [hown, addByHand_ledger]
    rfl

namespace Compilation.Drafted

variable {c : Compilation} {made : List (Declaration × Products)} {draft : Draft} {name : String}

/-- Something was made of every block. -/
theorem exists_products (h : c.Drafted made draft) {b : Block} (hb : b ∈ c.spec.blocks) :
    ∃ products, (c.site.declaration b, products) ∈ made := by
  have hmem : c.site.declaration b ∈ made.map Prod.fst := by
    rw [h.declarations]
    exact List.mem_map_of_mem ((dispatched_perm c.handlers c.spec.blocks).mem_iff.mpr hb)
  obtain ⟨⟨d, products⟩, hentry, rfl⟩ := List.mem_map.mp hmem
  exact ⟨products, hentry⟩

theorem exists_block (h : c.Drafted made draft) {entry : Declaration × Products}
    (hentry : entry ∈ made) : ∃ b ∈ c.spec.blocks, entry.1 = c.site.declaration b := by
  have hmem : entry.1 ∈ made.map Prod.fst := List.mem_map_of_mem hentry
  rw [h.declarations] at hmem
  obtain ⟨b, hb, hd⟩ := List.mem_map.mp hmem
  exact ⟨b, (dispatched_perm c.handlers c.spec.blocks).mem_iff.mp hb, hd.symm⟩

/-- No block makes what is declared by hand. -/
theorem not_made (h : c.Drafted made draft) (hname : name ∈ c.spec.members.keys) :
    ∀ entry ∈ made, name ∉ Entries.keys entry.2 := by
  refine (h.takes.claimed (Claims.get?_byHand_isSome [] ?_)).2
  simpa using hname

theorem member?_eq (h : c.Drafted made draft) (hname : name ∉ c.spec.members.keys) :
    c.compiled.own.member? name = draft.members.get? name := by
  unfold Layer.member?
  rw [h.members, Entries.get?_overlay_of_not_mem]
  simpa [Entries.keys] using hname

theorem member?_byHand (h : c.Drafted made draft) (hname : name ∈ c.spec.members.keys) :
    ∃ v, (name, v) ∈ c.spec.members ∧
      c.compiled.own.member? name = some ⟨.value v, c.spec.memberOrigin name⟩ := by
  unfold Layer.member?
  rw [h.members]
  have hkey : name ∈ Entries.keys (c.spec.members.map fun (name, v) =>
      (name, (⟨.value v, c.spec.memberOrigin name⟩ : Member))) := by
    simpa [Entries.keys] using hname
  obtain ⟨member, hmember, hget⟩ := Entries.exists_get?_overlay hkey draft.members
  obtain ⟨⟨key, v⟩, hv, heq⟩ := List.mem_map.mp hmember
  cases heq
  exact ⟨v, hv, hget⟩

theorem member?_none (h : c.Drafted made draft) (hname : name ∉ c.spec.members.keys)
    (hmade : ∀ entry ∈ made, name ∉ Entries.keys entry.2) :
    c.compiled.own.member? name = none := by
  rw [h.member?_eq hname]
  exact h.takes.keeps (fun draft => draft.members.get? name)
    (fun _ _ => Draft.Takes.keeps_member) hmade

/-- A block's product is the member under its name. -/
theorem member?_made (h : c.Drafted made draft) {d : Declaration} {products : Products}
    (hmem : (d, products) ∈ made) (hname : name ∈ Entries.keys products) :
    name ∉ c.spec.members.keys ∧ ∃ content, (name, content) ∈ products ∧
      c.compiled.own.member? name = some ⟨content, d.origin⟩ := by
  have hhand : name ∉ c.spec.members.keys := fun hhand => h.not_made hhand _ hmem hname
  refine ⟨hhand, ?_⟩
  rw [h.member?_eq hhand]
  obtain ⟨before, after, htakes, _, hlast⟩ :=
    h.takes.settled (fun draft => draft.members.get? name) (fun _ _ => Draft.Takes.keeps_member)
      hmem hname
  rw [hlast]
  exact htakes.member hname

end Compilation.Drafted

namespace Compilation

variable {c : Compilation} {b : Block} {name : String}

theorem member?_of_product (hbuiltIn : c.handlers.IsBuiltInFor b) (hb : b ∈ c.spec.blocks)
    {content : Content} (h : (name, content) ∈ (c.site.declaration b).products) :
    c.compiled.own.member? name = some ⟨content, b.origin c.spec.name⟩ := by
  obtain ⟨made, draft, hdrafted⟩ := c.exists_drafted
  obtain ⟨products, hmem⟩ := hdrafted.exists_products hb
  obtain rfl : products = (c.site.declaration b).products :=
    hdrafted.takes.products_eq hmem hbuiltIn
  obtain ⟨_, other, hother, hmember⟩ := hdrafted.member?_made hmem (List.mem_map_of_mem h)
  -- the block has one product of the name
  have hsame := List.inj_on_of_nodup_map (c.site.nodup_products b) h hother rfl
  cases hsame
  exact hmember

theorem member?_of_byHand (hnodup : c.spec.members.keys.Nodup) {v : Value}
    (h : (name, v) ∈ c.spec.members) :
    c.compiled.own.member? name = some ⟨.value v, c.spec.memberOrigin name⟩ := by
  obtain ⟨made, draft, hdrafted⟩ := c.exists_drafted
  obtain ⟨other, hother, hmember⟩ := hdrafted.member?_byHand (List.mem_map_of_mem h)
  have hsame := List.inj_on_of_nodup_map hnodup h hother rfl
  cases hsame
  exact hmember

/-- The built-in registry is built-in for every block. -/
theorem isBuiltInFor (h : c.handlers = .builtIn) (b : Block) : c.handlers.IsBuiltInFor b :=
  h ▸ HandlerRegistry.builtIn_isBuiltInFor b

end Compilation

/-! ## The ledger under the built-in handlers -/

/-- What a declaration leaves in the ledger once its products are placed. -/
structure Declaration.Notes (d : Declaration) (l after : Ledger) : Prop where
  addedBy? : ∀ name, after.addedBy? name =
    if name ∈ Entries.keys d.products then some d.origin else l.addedBy? name
  removed : after.removed = l.removed.add d.origin d.suppressed
  replaced : after.replaced = l.replaced
  components : after.components = l.components ++ d.groups
  custom : after.custom = l.custom ++ d.objects
  requirements : after.requirements =
    l.requirements ++ (d.demands ++ markers d.origin d.products)

theorem Compile.Draft.Takes.notes {draft next : Draft}
    (h : draft.Takes .builtIn d products next) :
    products = d.products ∧ d.Notes draft.ledger next.ledger := by
  obtain ⟨after, hanswers, hledger⟩ := h.exists_answers
  obtain ⟨rfl, hrecords⟩ := hanswers.contributes (HandlerRegistry.builtIn_isBuiltInFor d.block)
  refine ⟨rfl, ⟨fun name => ?_, ?_, ?_, ?_, ?_, ?_⟩⟩
  · rw [hledger, Ledger.addedBy?_recordAdded]
    simp only [Ledger.addedBy?, hrecords.added]
  · rw [hledger, ← hrecords.removed]
    rfl
  · rw [hledger, ← hrecords.replaced]
    rfl
  · rw [hledger, ← hrecords.components]
    rfl
  · rw [hledger, ← hrecords.custom]
    rfl
  · rw [hledger, ← List.append_assoc, ← hrecords.requirements]
    rfl

namespace Compile.Draft.TakesAll

variable {draft last : Draft} {made : List (Declaration × Products)}

theorem notes (h : draft.TakesAll .builtIn made last) :
    last.ledger.replaced = draft.ledger.replaced ∧
    last.ledger.components = draft.ledger.components ++ made.flatMap (fun entry => entry.1.groups) ∧
    last.ledger.custom = draft.ledger.custom ++ made.flatMap (fun entry => entry.1.objects) ∧
    last.ledger.requirements = draft.ledger.requirements ++ made.flatMap fun entry =>
      entry.1.demands ++ markers entry.1.origin entry.1.products := by
  induction h with
  | done => simp
  | next first _ ih =>
      obtain ⟨hreplaced, hcomponents, hcustom, hrequirements⟩ := ih
      obtain ⟨_, hnotes⟩ := first.notes
      refine ⟨hreplaced.trans hnotes.replaced, ?_, ?_, ?_⟩
      · rw [hcomponents, hnotes.components, List.flatMap_cons, List.append_assoc]
      · rw [hcustom, hnotes.custom, List.flatMap_cons, List.append_assoc]
      · rw [hrequirements, hnotes.requirements, List.flatMap_cons, List.append_assoc]

end Compile.Draft.TakesAll

end AppAssembly
