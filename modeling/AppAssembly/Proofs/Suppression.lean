import AppAssembly.Proofs.Backing
import AppAssembly.Proofs.Nullifying
import AppAssembly.Proofs.Validity

/-!
# What a null does to later types

A null of an attributes, checkers or methods block is judged once, when its type is compiled: if
there is something for it to hide, it becomes a callable that refuses to be called. On every later
type on which it has not been replaced, it still is one (`Hierarchy.null_suppresses`). So the walks
of a sanity check, which go by what all the layers recorded, come by the name without harm: it is no
checker, and it is callable.
-/

namespace AppAssembly

open Compile Instance

/-! ## Nulls and what they hide -/

namespace Compilation

variable {c : Compilation} {b : Block} {key : String}

/-- A block makes a key null: it declares it so, or it nulls out what a base shows under it. -/
def Nulls (c : Compilation) (b : Block) (key : String) : Prop :=
  (Entries.ofPairs b.entries).get? key = some .null ∨
    (key ∉ b.entries.keys ∧ b.nullifiesInherited = true ∧
      ∃ base ∈ c.bases, base.Shows b.identity key)

/-- There is something for a null to hide: a member that the ancestors have under the key or an
entry that the block inherits, and it is no plain null. -/
def HasToHide (c : Compilation) (b : Block) (key : String) : Prop :=
  (∃ owner member, CompiledType.memberAlong c.compiled.ancestors key = some (owner, member) ∧
    ∀ origin, member ≠ ⟨.value .null, origin⟩) ∨
  ∃ v, (inheritedBlock c.bases c.compiled.ancestors b.identity).entries.get? key = some v ∧
    v.isNull = false

theorem Nulls.entry {cs : List Compilation} (h : Hierarchy cs) (hc : c ∈ cs)
    (hnull : c.Nulls b key) : (c.site.declaration b).entriesOverNulls.get? key = some .null := by
  rcases hnull with hdeclared | ⟨hsilent, hnullifies, hshown⟩
  · unfold Declaration.entriesOverNulls
    rw [Entries.get?_overlay]
    show ((Entries.ofPairs b.entries).get? key).or _ = some .null
    rw [hdeclared]
    rfl
  · refine Site.get?_entriesOverNulls hnullifies ?_ hsilent
    exact (inheritedBlock_isSome_iff (h.ancestors_spec hc).2).mpr hshown

theorem overridesInherited_iff :
    (c.site.declaration b).overridesInherited key = true ↔ c.HasToHide b key := by
  have hancestors : (c.site.declaration b).ancestors = c.compiled.ancestors := rfl
  have hinherited : (c.site.declaration b).inherited =
      inheritedBlock c.bases c.compiled.ancestors b.identity := rfl
  unfold Declaration.overridesInherited HasToHide
  rw [hancestors, hinherited, Bool.or_eq_true, or_comm]
  refine or_congr ?_ ?_
  · split
    · rename_i layer origin heq
      simp only [heq, Option.some.injEq, Prod.mk.injEq, Bool.false_eq_true, false_iff]
      rintro ⟨owner, member, ⟨_, rfl⟩, hplain⟩
      exact hplain origin rfl
    · rename_i owner hnot heq
      simp only [true_iff]
      refine ⟨owner.1, owner.2, heq, fun origin hmember => ?_⟩
      obtain ⟨layer, member⟩ := owner
      exact hnot layer origin (by rw [← hmember])
    · rename_i heq
      simp [heq]
  · split
    · rename_i v heq
      simp [heq]
    · rename_i heq
      simp [heq]

/-- What a null becomes the member of its layer. -/
theorem member?_of_nulls {cs : List Compilation} (h : Hierarchy cs) (hc : c ∈ cs)
    (hb : b ∈ c.spec.blocks) (hbuiltIn : c.handlers.IsBuiltInFor b)
    (hputs : b.kind.putsEntries = true) (hnull : c.Nulls b key) :
    c.compiled.own.member? key =
      some ⟨(c.site.declaration b).nullContent key, b.origin c.spec.name⟩ :=
  member?_of_entry hb hbuiltIn hputs (hnull.entry h hc)

end Compilation

/-! ## Checkers are called by one sanity check only -/

namespace Instance

/-- Once an instance has been checked it stays so, and only deeds of a kind are added. -/
def Past (P : Deed → Prop) (i j : Instance) : Prop :=
  i.phase ≠ .created → j.phase ≠ .created ∧ i.workshop.Adds P j.workshop

variable {P Q : Deed → Prop} {i j : Instance}

instance : Std.Refl (Past P) where
  refl i hi := ⟨hi, Std.Refl.refl i.workshop⟩

instance : Trans (Past P) (Past P) (Past P) where
  trans h h' hi :=
    have ⟨hj, hfirst⟩ := h hi
    have ⟨hk, hsecond⟩ := h' hj
    ⟨hk, Trans.trans hfirst hsecond⟩

theorem Stays.past (h : i.Stays P j) : i.Past P j :=
  fun hi => ⟨h.phase ▸ hi, h.work⟩

theorem Past.mono (h : i.Past P j) (hPQ : ∀ d, P d → Q d) : i.Past Q j := by
  intro hi
  obtain ⟨hj, work, hdeeds, hwork⟩ := h hi
  exact ⟨hj, work, hdeeds, fun d hd => hPQ d (hwork d hd)⟩

/-- The first two steps are refused from then on. -/
theorem misstep?_past (step : Step) (hneeds : step.needs = .created) (hi : i.phase ≠ .created) :
    ∃ misstep, i.misstep? step = some misstep := by
  unfold misstep?
  cases step with
  | createThings => simp [Step.needs, hi]
  | sanityCheck => cases i.materialized <;> simp [Step.needs, hi]
  | install | run => cases hneeds

/-- A step is refused, or it is a later one and does its work. -/
theorem undertake_past {α : Type} {step : Step} {work : Act Instance α}
    (hdeeds : ∀ r : Except Error α, P (.enter step) ∧ P (ending step r))
    (hwork : step.needs ≠ .created → work.Keeps (Past P)) :
    (undertake step work).Keeps (Past P) := by
  intro i hi
  cases hmisstep : i.misstep? step with
  | some misstep =>
      rw [undertake_refused hmisstep]
      exact ⟨hi, Std.Refl.refl i.workshop⟩
  | none =>
      have hneeds : step.needs ≠ .created := by
        intro hneeds
        obtain ⟨misstep, hsome⟩ := misstep?_past step hneeds hi
        rw [hmisstep] at hsome
        cases hsome
      have hbegun : (i.begun step).phase ≠ .created := by
        cases step with
        | createThings | sanityCheck => exact absurd rfl hneeds
        | install | run => simp [begun, Step.reaches]
      obtain ⟨hphase, done, hdone, hkind⟩ := hwork hneeds (i.begun step) hbegun
      rcases hrun : work (i.begun step) with ⟨r, j⟩
      rw [hrun] at hphase hdone
      rw [undertake_begun hmisstep hrun]
      refine ⟨hphase, .enter step :: done ++ [ending step r], ?_, ?_⟩
      · show j.workshop.deeds ++ _ = _
        rw [hdone]
        simp [begun, Workshop.note]
      · simp only [List.mem_append, List.mem_cons, List.not_mem_nil, or_false]
        rintro d ((rfl | hd) | rfl)
        · exact (hdeeds r).1
        · exact hkind d hd
        · exact (hdeeds r).2

theorem during_past {step : Step} {act : Act Instance Unit} (habort : P (.abort step))
    (h : act.Keeps (Past P)) : (during step act).Keeps (Past P) := by
  refine h.attempt.bind fun outcome => ?_
  cases outcome with
  | ok _ => exact Act.keeps_pure ()
  | error e => exact ((note_stays habort).mono Stays.past).bind fun _ => Act.keeps_fail e

end Instance

/-- Any deed but the call of a checker. -/
def Deed.Unchecking (d : Deed) : Prop :=
  ∀ identity, d ≠ .check identity

section

variable {eval : Evaluator}
  (heval : ∀ script args, (eval.run script args).Keeps (Past Deed.Unchecking))
include heval

theorem past_calls : CallsKeep eval (Past Deed.Unchecking) :=
  .of_stays (fun h => h.of_none.past) heval

/-- Whatever a client does with an instance that is past its sanity check, no checker is called on
its behalf. -/
theorem Client.unchecking {α : Type} {byHand : Bool} {act : Act Instance α}
    (h : Client byHand eval act) : act.Keeps (Past Deed.Unchecking) := by
  have hcalls := past_calls heval
  have hdeeds : ∀ {β : Type} (step : Step) (r : Except Error β),
      Deed.Unchecking (.enter step) ∧ Deed.Unchecking (ending step r) := fun step r =>
    ⟨nofun, by cases r <;> exact nofun⟩
  have hnote : ∀ {d : Deed}, d.Unchecking → (note d).Keeps (Past Deed.Unchecking) := fun hd =>
    (note_stays hd).mono Stays.past
  refine h.keeps hcalls (fun name v => (set_stays name v).mono Stays.past)
    (fun line => (write_stays line).mono Stays.past) (fun i hi => ?_) (fun i hi => ?_)
    fun _ => ⟨?_, ?_, ?_, ?_⟩
  -- a bootstrap is refused as its first step is, and so is what begins with one
  · obtain ⟨misstep, hmisstep⟩ := misstep?_past .createThings rfl hi
    rw [bootstrap_refused hmisstep]
    exact ⟨hi, Std.Refl.refl i.workshop⟩
  · obtain ⟨misstep, hmisstep⟩ := misstep?_past .createThings rfl hi
    rw [execute_refused hmisstep]
    exact ⟨hi, Std.Refl.refl i.workshop⟩
  · exact undertake_past (hdeeds _) fun hneeds => absurd rfl hneeds
  · exact undertake_past (hdeeds _) fun hneeds => absurd rfl hneeds
  · exact undertake_past (hdeeds _) fun _ => hcalls.installAll fun _ => hnote nofun
  · exact undertake_past (hdeeds _) fun _ => hcalls.callRunner (hnote nofun)

end

/-- Native code has no checker called on an instance that is past its sanity check. The induction is
on its depth. -/
theorem Evaluator.Free.unchecking {eval : Evaluator} (h : eval.Free) (script : Script)
    (args : List Value) : (eval.run script args).Keeps (Past Deed.Unchecking) := by
  induction h generalizing script args with
  | lowest => exact Act.keeps_fail _
  | above _ client ih => exact (client script args).unchecking ih

/-! ## A sanity check that comes by a name -/

theorem CompiledType.step_of_mem_validating {t : CompiledType} {errand : Errand}
    (h : errand ∈ t.validating) : errand.step = .sanityCheck := by
  simp only [validating, List.mem_append, List.mem_cons, List.mem_flatMap, List.mem_map,
    List.not_mem_nil, or_false] at h
  rcases h with rfl | ((⟨_, _, _, _, rfl⟩ | ⟨_, _, rfl⟩) | ⟨_, _, rfl⟩) | rfl <;> rfl

/-- The attribute that an errand calls or looks at by its name. -/
def Errand.attribute? : Errand → Option String
  | .check checker => some checker.identity
  | .approve method => some method.identity
  | _ => none

namespace Instance

/-- A name does no harm when a sanity check comes by it. -/
structure PassesOver (eval : Evaluator) (i : Instance) (key : String) : Prop where
  /-- These are the errands that a sanity check runs. -/
  runs : Instance.sanityCheck eval i =
    Act.forEach i.compiled.validating (Errand.perform eval) i
  /-- Whenever it is the turn of the name, nothing is called and nothing is refused, unless the name
  was set in the meantime. -/
  harmless : ∀ errand j, (errand, j) ∈ Act.course (Errand.perform eval) i.compiled.validating i →
    errand.attribute? = some key → (∀ v, (key, v) ∉ j.written) →
      errand.perform eval j = (.ok (), j)
  /-- If it was not set at all, no checker of the name is noted as run. -/
  silent : (∀ v, (key, v) ∉ (Instance.sanityCheck eval i).2.written) → ∃ work,
    (Instance.sanityCheck eval i).2.works = i.works ++ work ∧ .check key ∉ work
  /-- And a failure is that of another errand. -/
  blameless : (∀ v, (key, v) ∉ (Instance.sanityCheck eval i).2.written) → ∀ e,
    (Instance.sanityCheck eval i).1 = .error e → ∃ errand j,
      (errand, j) ∈ Act.course (Errand.perform eval) i.compiled.validating i ∧
        (errand.perform eval j).1 = .error e ∧ errand.attribute? ≠ some key

variable {eval : Evaluator} {i j : Instance} {key : String} {v : Value}

/-- What is callable and no checker does no harm when it is its turn. -/
theorem perform_harmless (hget : get key j = (.ok v, j)) (hchecking : v.isChecking = false)
    (hcallable : v.isCallable = true) {errand : Errand} (hname : errand.attribute? = some key) :
    errand.perform eval j = (.ok (), j) := by
  cases errand with
  | check checker =>
      obtain rfl := Option.some.inj hname
      exact during_ok (runChecker_skipped hget hchecking)
  | approve method =>
      obtain rfl := Option.some.inj hname
      refine during_ok ?_
      unfold checkMethod
      rw [Act.bind_ok hget, Act.bind_ok (Act.state_apply j), if_pos hcallable]
      rfl
  | _ => cases hname

section

variable (heval : eval.Free)
include heval

/-- The moments of a sanity check are moments of the instance's life, and nothing is set by then
that is not set in the end. -/
theorem moment_of_validating {errand : Errand}
    (hmem : (errand, j) ∈ Act.course (Errand.perform eval) i.compiled.validating i) :
    errand ∈ i.compiled.validating ∧ i.Becomes j ∧
      j.Becomes (Act.forEach i.compiled.validating (Errand.perform eval) i).2 := by
  have hkeeps : ∀ errand ∈ i.compiled.validating, (errand.perform eval).Keeps Becomes :=
    fun errand herrand => errand.perform_becomes heval
      (CompiledType.step_of_mem_later (List.mem_append_left _ herrand))
  have herrand := (Act.course_begins _ _ _).mem (List.mem_map_of_mem hmem)
  obtain ⟨hbefore, hafter⟩ := Act.course_keeps hkeeps _ hmem
  exact ⟨herrand, hbefore, Trans.trans (hkeeps _ herrand j) hafter⟩

/-- Once a sanity check is under way, an errand has no checker of a name called that it passes
over. -/
theorem perform_past {errand : Errand} (hstep : errand.step = .sanityCheck)
    (hharmless : errand.attribute? = some key → errand.perform eval j = (.ok (), j)) :
    j.Past (fun d => d ≠ .check key) (errand.perform eval j).2 := by
  have hcalls : CallsKeep eval (Past fun d => d ≠ .check key) :=
    .of_stays (fun h => h.of_none.past) fun script args =>
      (heval.unchecking script args).mono fun h => h.mono fun _ hd => hd key
  by_cases hname : errand.attribute? = some key
  · rw [hharmless hname]
    exact Std.Refl.refl j
  · cases errand with
    | enter step =>
        intro hj
        obtain rfl : step = .sanityCheck := hstep
        obtain ⟨misstep, hmisstep⟩ := misstep?_past .sanityCheck rfl hj
        have hrefused : Errand.perform eval (.enter .sanityCheck) j = _ := enter_refused hmisstep
        rw [hrefused]
        exact ⟨hj, Std.Refl.refl j.workshop⟩
    | resolve requirement path =>
        exact during_past nofun (((hcalls.get path).mapError _).bind fun _ => Act.keeps_pure ()) j
    | check checker =>
        have hother : Deed.check checker.identity ≠ .check key := fun hsame =>
          hname (congrArg some (Deed.check.inj hsame))
        have hnote : (note (.check checker.identity)).Keeps (Past fun d => d ≠ .check key) :=
          (note_stays (P := fun d => d ≠ .check key) hother).mono Stays.past
        exact during_past nofun (hcalls.runChecker hnote) j
    | approve method => exact during_past nofun (hcalls.checkMethod method) j
    | finish step => exact (note_stays nofun).mono Stays.past j
    | create _ | install _ => cases hstep

/-- A sanity check that passes over a name has no checker of the name called. -/
theorem validating_silent
    (hharmless : ∀ errand j,
      (errand, j) ∈ Act.course (Errand.perform eval) i.compiled.validating i →
      errand.attribute? = some key → errand.perform eval j = (.ok (), j)) :
    ∃ work, (Act.forEach i.compiled.validating (Errand.perform eval) i).2.works = i.works ++ work ∧
      .check key ∉ work := by
  obtain ⟨rest, hrest⟩ : ∃ rest, i.compiled.validating = .enter .sanityCheck :: rest := ⟨_, rfl⟩
  have hsteps : ∀ errand ∈ rest, errand.step = .sanityCheck := fun errand herrand =>
    CompiledType.step_of_mem_validating (hrest ▸ List.mem_cons_of_mem _ herrand)
  rw [hrest] at hharmless ⊢
  cases hmisstep : i.misstep? .sanityCheck with
  | some misstep =>
      have hrefused : Errand.perform eval (.enter .sanityCheck) i = _ := enter_refused hmisstep
      refine ⟨[], ?_, List.not_mem_nil⟩
      rw [Act.forEach_cons_error hrefused, List.append_nil]
  | none =>
      have hbegun :
          Errand.perform eval (.enter .sanityCheck) i = (.ok (), i.begun .sanityCheck) := by
        show Instance.enter .sanityCheck i = _
        unfold Instance.enter
        rw [hmisstep]
      rw [Act.course_cons_ok hbegun] at hharmless
      rw [Act.forEach_cons_ok hbegun]
      have hpast : (i.begun .sanityCheck).Past (fun d => d ≠ .check key)
          (Act.forEach rest (Errand.perform eval) (i.begun .sanityCheck)).2 := by
        refine Act.forEach_of_course fun m hm => ?_
        have herrand := (Act.course_begins _ _ _).mem (List.mem_map_of_mem hm)
        exact perform_past heval (hsteps m.1 herrand)
          (hharmless m.1 m.2 (List.mem_cons_of_mem _ hm))
      obtain ⟨_, work, hdeeds, hsilent⟩ := hpast (by simp [begun, Step.reaches])
      refine ⟨work.filter Deed.isWork, ?_, fun hmem => hsilent _ (List.mem_filter.mp hmem).1 rfl⟩
      rw [works, hdeeds, List.filter_append, works]
      simp [begun, Workshop.note, Deed.isWork]

/-- A name that shows something callable that is no checker, whenever it was not set, is passed
over. -/
theorem passesOver (hshows : ∀ j, i.Becomes j → (∀ w, (key, w) ∉ j.written) →
      get key j = (.ok v, j)) (hchecking : v.isChecking = false)
    (hcallable : v.isCallable = true) : i.PassesOver eval key := by
  have hruns := sanityCheck_eq eval i
  -- what is set at no time in the end is set at no moment
  have hunset : (∀ w, (key, w) ∉ (Instance.sanityCheck eval i).2.written) → ∀ errand j,
      (errand, j) ∈ Act.course (Errand.perform eval) i.compiled.validating i →
        ∀ w, (key, w) ∉ j.written := by
    intro hend errand j hmem w hw
    obtain ⟨_, _, hafter⟩ := moment_of_validating heval hmem
    rw [hruns] at hend
    exact hend w (hafter.written.mem hw)
  have hharmless : ∀ errand j,
      (errand, j) ∈ Act.course (Errand.perform eval) i.compiled.validating i →
      errand.attribute? = some key → (∀ w, (key, w) ∉ j.written) →
        errand.perform eval j = (.ok (), j) := by
    intro errand j hmem hname hj
    obtain ⟨_, hbefore, _⟩ := moment_of_validating heval hmem
    exact perform_harmless (hshows j hbefore hj) hchecking hcallable hname
  refine ⟨hruns, hharmless, ?_, ?_⟩
  · intro hend
    rw [hruns]
    exact validating_silent heval fun errand j hmem hname =>
      hharmless errand j hmem hname (hunset hend errand j hmem)
  · intro hend e he
    rw [hruns] at he
    obtain ⟨errand, j, hmem, hfailed⟩ := Act.exists_failed he
    refine ⟨errand, j, hmem, hfailed, fun hname => ?_⟩
    rw [hharmless errand j hmem hname (hunset hend errand j hmem)] at hfailed
    cases hfailed

end

end Instance

/-! ## On all later types -/

/-- A null counts for all types to come. On every instance of a type on which the member that it
became wins, and as long as the name is not set: if there was something for it to hide, calls are
refused in the name of the block, and a sanity check passes the name over, whatever native code it
sets to work; if not, the value is null. -/
theorem Hierarchy.null_suppresses {cs : List Compilation} (h : Hierarchy cs) {d : Compilation}
    (hd : d ∈ cs) {b : Block} (hb : b ∈ d.spec.blocks) (hbuiltIn : d.handlers.IsBuiltInFor b)
    (hputs : b.kind.putsEntries = true) {key : String} (hplain : isPlain key = true)
    (hnull : d.Nulls b key) :
    (∃ member, d.compiled.member? key = some (d.compiled.own, member)) ∧
    ∀ e ∈ cs, ∀ owner member, e.compiled.member? key = some (owner, member) →
      owner.id = d.compiled.own.id →
      ∀ i, Reachable i → i.compiled = e.compiled → (∀ v, (key, v) ∉ i.written) →
        (d.HasToHide b key → ∀ eval : Evaluator,
          (eval.Raises → ∀ args, Instance.call eval key args i =
            (.error (.notImplemented key (b.origin d.spec.name)), i)) ∧
          (eval.Free → i.PassesOver eval key)) ∧
        (¬ d.HasToHide b key → get key i = (.ok .null, i)) := by
  have hown := Compilation.member?_of_nulls h hd hb hbuiltIn hputs hnull
  refine ⟨⟨_, CompiledType.member?_of_own hown⟩, ?_⟩
  intro e he owner member hwins hid i hi hcompiled hunset
  obtain ⟨hfind, hmember⟩ := CompiledType.member?_eq_some_iff.mp hwins
  obtain rfl : owner = d.compiled.own := h.layer_eq_of_id (h.chain he) (h.chain hd)
    (List.mem_of_find?_eq_some hfind) List.mem_cons_self hid
  obtain rfl : member = _ := Option.some.inj (hmember.symm.trans hown)
  unfold Declaration.nullContent at hwins
  rw [← hcompiled] at hwins
  constructor
  · intro hhides eval
    rw [if_pos (Compilation.overridesInherited_iff.mpr hhides)] at hwins
    refine ⟨fun hraises args => hi.call_refused hraises hplain hwins hunset args, fun hfree => ?_⟩
    have hshows := fun (j : Instance) (hj : i.Becomes j) =>
      (hi.becomes hj).get_unset hplain (hj.lasts.compiled ▸ hwins)
    exact Instance.passesOver hfree hshows rfl rfl
  · intro hnothing
    rw [if_neg (mt Compilation.overridesInherited_iff.mp hnothing)] at hwins
    exact hi.get_unset hplain hwins hunset

/-! ## A checker that is nulled out as a method

A type declares a method of the name of its base's checker as a null. A further type is built on it
and on an unrelated one. For the further type the name is on record as a checker and as something
that has to be callable. -/

namespace Muted

def failing : Callable :=
  ⟨.given 0, "go", [], true, none, .raise (.other "not ready")⟩

def base : Compilation :=
  .ofOk .builtIn 0
    { name := "Base"
      blocks := [{ identity := "Checkers", entries := [("go", .callable failing)] }] }
    [] (by decide +kernel)

/-- The block with the null. -/
def muting : Block :=
  { identity := "Methods", entries := [("go", .null)] }

def muted : Compilation :=
  .ofOk .builtIn 1 { name := "Muted", blocks := [muting] } [base.compiled] (by decide +kernel)

def other : Compilation :=
  .ofOk .builtIn 2
    { name := "Other", blocks := [{ identity := "Attrs", entries := [("x", .int 1)] }] }
    [] (by decide +kernel)

def further : Compilation :=
  .ofOk .builtIn 3
    { name := "Further", blocks := [{ identity := "Attrs", entries := [("y", .int 2)] }] }
    [other.compiled, muted.compiled] (by decide +kernel)

theorem hierarchy : Hierarchy [further, other, muted, base] := by
  refine .compile (.compile (.compile (.compile .empty ?_ ?_) ?_ ?_) ?_ ?_) ?_ ?_
  · simp
  · simp [base, Compilation.ofOk]
  · simp [base, muted, Compilation.ofOk]
  · simp [muted, Compilation.ofOk]
  · simp [base, muted, other, Compilation.ofOk]
  · simp [other, Compilation.ofOk]
  · simp [base, muted, other, further, Compilation.ofOk]
  · simp [further, Compilation.ofOk]

/-- An instance of the further type that is ready for its sanity check. -/
def created : Instance :=
  (createThings native.make (Instance.ofType further.compiled)).2

theorem reachable_created : Reachable created :=
  (Reachable.ofType further.compiled).move (.createThings _ native.make)

/-- The winning member of the further type is the one that the null became. -/
theorem exists_member?_further : ∃ owner member,
    further.compiled.member? "go" = some (owner, member) ∧
      owner.id = muted.compiled.own.id := by
  have hid : (further.compiled.member? "go").map (fun entry => entry.1.id) = some 1 := by
    decide +kernel
  obtain ⟨⟨owner, member⟩, hmember, howner⟩ := Option.map_eq_some_iff.mp hid
  exact ⟨owner, member, hmember, howner.trans muted.own_id.symm⟩

/-- The base's checker is a member that the null has to hide. -/
theorem hasToHide_muting : muted.HasToHide muting "go" := by
  refine Compilation.overridesInherited_iff.mp ?_
  decide +kernel

theorem null_suppresses_created :
    further.compiled.checkers.map Checker.identity = ["go"] ∧
    further.compiled.methods.map Method.identity = ["go"] ∧
    (Instance.sanityCheck native created).1 = .ok () ∧
    (∀ args, Instance.call native "go" args created =
      (.error (.notImplemented "go" ⟨"Muted.Methods", none⟩), created)) ∧
    created.PassesOver native "go" := by
  have hunset : created.written = [] := by
    have hempty : created.written.isEmpty = true := by decide +kernel
    exact List.isEmpty_iff.mp hempty
  have hnull : muted.Nulls muting "go" := .inl rfl
  obtain ⟨_, hfurther⟩ := hierarchy.null_suppresses (d := muted) (b := muting) (by simp)
    List.mem_cons_self (Compilation.isBuiltInFor rfl _) (by decide +kernel) (by decide) hnull
  obtain ⟨owner, member, hmember, hid⟩ := exists_member?_further
  obtain ⟨hsuppressed, _⟩ := hfurther further List.mem_cons_self owner member hmember hid created
    reachable_created (createThings_lasts native.make _).compiled (by simp [hunset])
  obtain ⟨hcall, hpasses⟩ := hsuppressed hasToHide_muting native
  exact ⟨by decide +kernel, by decide +kernel, eq_ok_okValue (by decide +kernel),
    hcall native_raises, hpasses native_free⟩

end Muted

end AppAssembly
