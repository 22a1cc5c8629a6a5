import AppAssembly.Proofs.Caching
import AppAssembly.Proofs.Jobs
import AppAssembly.Proofs.Setting

/-!
# What a bootstrap vouches for

A bootstrap looks up one thing after the other, on an instance that changes meanwhile: the look-ups
fill cells, and so does native code. What was found once is found from then on nevertheless, unless
something is set (`Becomes.get_eq`). So when a bootstrap has succeeded, all that it has found in
passing is there at the end (`bootstrap_valid`).
-/

namespace AppAssembly

open Instance

variable {i j k : Instance}

namespace Instance

/-! ## What is found later on -/

/-- What is found depends on the type, on what was placed and on the cells. -/
theorem lookup_congr (hi : i.Exposed) (hj : j.Exposed) (hcompiled : j.compiled = i.compiled)
    (hattrs : ∀ name, j.attrs.get? name = i.attrs.get? name)
    (hcells : ∀ name, j.cells.get? name = i.cells.get? name) (name : String) :
    (lookup name j).1 = (lookup name i).1 := by
  refine lookup_induct (motive := fun i name => ∀ j : Instance, j.Exposed →
    j.compiled = i.compiled → (∀ name, j.attrs.get? name = i.attrs.get? name) →
    (∀ name, j.cells.get? name = i.cells.get? name) →
    (lookup name j).1 = (lookup name i).1) ?settled ?pending hi name j hj hcompiled hattrs hcells
  case settled =>
    intro i name hi hsettled j hj hcompiled hattrs hcells
    exact lookup_settled_congr hi hj hsettled hcompiled (hattrs name) (hcells name)
  case pending =>
    intro i name d hi hpending ih j hj hcompiled hattrs hcells
    have hpending' : j.pending? name = some d :=
      pending?_eq_some_iff.mpr ((hcells name).trans (pending?_eq_some_iff.mp hpending))
    have hfirst : (seek d.head (j.putCell name d .resolving)).1 =
        (seek d.head (i.putCell name d .resolving)).1 := by
      refine seek_congr fun _ => ih d.head _ (hj.mark hpending') hcompiled hattrs fun other => ?_
      rw [get?_putCell, get?_putCell, hcells]
    rw [lookup_pending hi hpending, lookup_pending hj hpending']
    dsimp only
    rw [hfirst, describe_congr hcompiled]

/-- Once things were created, only setting a name can change what is found. -/
theorem Places.get_eq (h : i.Places j) (hi : i.Exposed) (hcreated : i.materialized = true)
    (path : String) : (get path j).1 = (get path i).1 := by
  have hawaits : ∀ name, i.awaits name = false := by
    intro name
    rw [Bool.eq_false_iff]
    intro hname
    rw [(awaits_eq_true_iff.mp hname).1] at hcreated
    cases hcreated
  refine get_congr h.compiled (lookup_congr hi (hi.places h) h.compiled ?_ ?_ _)
  · exact fun name => h.attrs name (hawaits name)
  · exact fun name => by rw [h.cells]

theorem begun_places (i : Instance) (step : Step) : i.Places (i.begun step) :=
  ⟨rfl, rfl, rfl, fun h => by simp [begun, h], fun _ _ => rfl⟩

/-- What was set stays on record. -/
theorem Move.written (h : Move i j) : i.written <+: j.written := by
  rcases h.effect with hj | ⟨name, v, rfl⟩ | hj
  · rw [hj.rest]
  · cases hset : (Instance.set name v i).1 with
    | error e => rw [set_error hset]
    | ok _ =>
        rw [set_written hset]
        exact List.prefix_append _ _
  · rw [hj.written]

theorem Becomes.written (h : i.Becomes j) : i.written <+: j.written := by
  induction h with
  | refl => exact List.prefix_rfl
  | tail _ hmove ih => exact ih.trans hmove.written

/-- The record only grows, so what it is in the end it was in between. -/
theorem Becomes.unset_between (h : i.Becomes j) (h' : j.Becomes k)
    (hunset : k.written = i.written) : j.written = i.written := by
  refine (h.written.eq_of_length_le ?_).symm
  rw [← hunset]
  exact h'.written.length_le

/-- A move that sets nothing changes nothing about what is found. -/
theorem Move.get_eq (h : Move i j) (hi : Reachable i) (hcreated : i.materialized = true)
    (hunset : j.written = i.written) (path : String) :
    (Instance.get path j).1 = (Instance.get path i).1 := by
  cases h with
  | get other => exact hi.looks_unseen [.get other] path
  | set name v =>
      cases hset : (Instance.set name v i).1 with
      | error e => rw [set_error hset]
      | ok _ =>
          rw [set_written hset] at hunset
          simp at hunset
  | createThings make => exact (createThings_places make i).get_eq hi.exposed hcreated path
  | enter hlater hadmitted => exact (begun_places i _).get_eq hi.exposed hcreated path
  | work w hw =>
      have hplaces : i.Places { i with workshop := w } := ⟨rfl, rfl, rfl, id, fun _ _ => rfl⟩
      exact hplaces.get_eq hi.exposed hcreated path

/-- From when things were created on, what is at the end of a path stays the same until something is
set. -/
theorem Becomes.get_eq (h : i.Becomes j) (hi : Reachable i) (hcreated : i.materialized = true)
    (hunset : j.written = i.written) (path : String) : (get path j).1 = (get path i).1 := by
  induction h with
  | refl => rfl
  | @tail k j hrun hmove ih =>
      have hbefore : i.Becomes k := hrun
      have hk := hbefore.unset_between hmove.becomes hunset
      rw [hmove.get_eq (hi.becomes hbefore) (hbefore.lasts.materialized hcreated)
        (hunset.trans hk.symm), ih hk]

/-! ## What was found in passing -/

theorem createThings_materialized {make : Builder} (h : (createThings make i).1 = .ok ()) :
    (createThings make i).2.materialized = true := by
  have hbegun : (i.begun .createThings).materialized = true := by simp [begun]
  have hdone := (createAll_lasts make (i.begun .createThings)).materialized hbegun
  have hdue := misstep?_of_ok h
  rcases hrun : createAll make (i.begun .createThings) with ⟨r, j⟩
  rw [hrun] at hdone
  rw [createThings, undertake_begun hdue hrun]
  exact hdone

end Instance

theorem CompiledType.step_of_mem_later {t : CompiledType} {errand : Errand}
    (h : errand ∈ t.validating ++ t.installing) : errand.step ≠ .createThings := by
  simp only [validating, installing, List.mem_append, List.mem_cons, List.mem_flatMap,
    List.mem_map, List.not_mem_nil, or_false] at h
  rcases h with (rfl | ((⟨_, _, _, _, rfl⟩ | ⟨_, _, rfl⟩) | ⟨_, _, rfl⟩) | rfl) |
    (rfl | ⟨_, _, rfl⟩ | rfl) <;> simp [Errand.step]

namespace Instance

section

variable {eval : Evaluator} (heval : eval.Free)
include heval

/-- Every errand of a bootstrap that has succeeded had its moment, at which it succeeded. -/
theorem moment_of_bootstrap (hok : (Instance.bootstrap eval i).1 = .ok ()) (errand : Errand)
    (hmem : errand ∈ i.compiled.validating ++ i.compiled.installing) :
    ∃ t, i.Becomes t ∧ t.materialized = true ∧ t.Becomes (Instance.bootstrap eval i).2 ∧
      (errand.perform eval t).1 = .ok () := by
  have hkeeps : ∀ later ∈ i.compiled.validating ++ i.compiled.installing,
      (later.perform eval).Keeps Becomes := fun later hlater =>
    later.perform_becomes heval (CompiledType.step_of_mem_later hlater)
  have hfirst := createThings_becomes eval.make i
  have hcreated : (createThings eval.make i).1 = .ok () → _ := createThings_materialized
  rw [bootstrap_eq heval, CompiledType.agenda, List.append_assoc, Act.forEach_append,
    Act.bind_apply, ← createThings_eq] at hok ⊢
  rcases hrun : Instance.createThings eval.make i with ⟨e | _, j⟩
  · simp [hrun] at hok
  · simp only [hrun] at hok hfirst hcreated ⊢
    rw [← Act.course_of_ok hok] at hmem
    obtain ⟨⟨_, t⟩, hbegun, rfl⟩ := List.mem_map.mp hmem
    obtain ⟨hbefore, hafter⟩ := Act.course_keeps hkeeps _ hbegun
    have hmine := hkeeps _ ((Act.course_begins _ _ _).mem (List.mem_map_of_mem hbegun)) t
    exact ⟨t, Trans.trans hfirst hbefore, hbefore.lasts.materialized (hcreated trivial),
      Trans.trans hmine hafter, Act.forEach_eq_ok_iff.mp hok _ hbegun⟩

end

/-! ## Valid instances -/

/-- An instance that has all it needs. -/
structure Valid (eval : Evaluator) (k : Instance) : Prop where
  requirements : ∀ r ∈ k.compiled.requirements, ∀ path ∈ r.paths, ∃ v, (get path k).1 = .ok v
  methods : ∀ method ∈ k.compiled.methods, ∃ v, (get method.identity k).1 = .ok v ∧
    v.isCallable = true
  installers : ∀ installer ∈ k.compiled.installers, ∃ o : Obj,
    (get installer.path k).1 = .ok (.object o) ∧ Entries.contains o.methods installMethod = true
  /-- If the runner is one of the attributes that have to be callable, then running is to call what
  is found there, unless it is not the time for it. -/
  runner : ∀ method ∈ k.compiled.methods, method.identity = k.runner → ∃ v,
    (get k.runner k).1 = .ok v ∧ v.isCallable = true ∧
    (∀ misstep, k.misstep? .run = some misstep →
      Instance.run eval k = (.error (.lifecycle k.phase misstep), k)) ∧
    (k.misstep? .run = none → (Instance.run eval k).1 =
      ((note .run >>= fun _ => v.invoke eval []) (get k.runner (k.begun .run)).2).1)

theorem callRunner_found {eval : Evaluator} {v : Value} (h : get i.runner i = (.ok v, j)) :
    callRunner eval i = (note .run >>= fun _ => v.invoke eval []) j := by
  unfold callRunner
  rw [Act.bind_ok (Act.state_apply i), Act.bind_ok (Act.mapError_ok h)]

/-- A runner that is found is called. -/
theorem run_found {eval : Evaluator} (hi : Reachable i) (hcreated : i.materialized = true)
    {v : Value} (hfound : (get i.runner i).1 = .ok v) (hdue : i.misstep? .run = none) :
    (Instance.run eval i).1 =
      ((note .run >>= fun _ => v.invoke eval []) (get i.runner (i.begun .run)).2).1 := by
  have hsame := (begun_places i .run).get_eq hi.exposed hcreated i.runner
  rcases hget : get i.runner (i.begun .run) with ⟨r, j⟩
  rw [hget, hfound] at hsame
  obtain rfl : r = .ok v := hsame
  rcases hcall : (note .run >>= fun _ => v.invoke eval []) j with ⟨r, l⟩
  rw [Instance.run, undertake_begun hdue ((callRunner_found hget).trans hcall)]

section

variable {eval : Evaluator} (heval : eval.Free) (hi : Reachable i)
  (hok : (Instance.bootstrap eval i).1 = .ok ())
  (hk : (Instance.bootstrap eval i).2.Becomes k) (hunset : k.written = i.written)
include heval hok hk

theorem materialized_of_bootstrap : k.materialized = true := by
  obtain ⟨t, _, hcreated, hafter, _⟩ := moment_of_bootstrap heval hok
    (.enter .sanityCheck) (by simp [CompiledType.validating])
  exact hk.lasts.materialized (hafter.lasts.materialized hcreated)

include hi hunset

/-- Whatever an errand has found at its moment is still there. -/
theorem recalled_of_bootstrap (errand : Errand)
    (hmem : errand ∈ i.compiled.validating ++ i.compiled.installing) :
    ∃ t, (errand.perform eval t).1 = .ok () ∧ ∀ path, (get path k).1 = (get path t).1 := by
  obtain ⟨t, hbefore, hcreated, hafter, hdone⟩ := moment_of_bootstrap heval hok errand hmem
  have htk : t.Becomes k := Trans.trans hafter hk
  have ht := hbefore.unset_between htk hunset
  exact ⟨t, hdone, htk.get_eq (hi.becomes hbefore) hcreated (hunset.trans ht.symm)⟩

/-- After a bootstrap that has succeeded an instance is valid, and it stays so: the paths that are
required resolve, what has to be callable is, and what was installed can be installed, as long as no
attribute is set, neither by native code while the bootstrap runs nor later on. -/
theorem bootstrap_valid : k.compiled = i.compiled ∧ k.Valid eval := by
  have hrun : i.Becomes k := Trans.trans (bootstrap_becomes heval.becomes i) hk
  have hcompiled := hrun.lasts.compiled
  have hmethods : ∀ method ∈ k.compiled.methods, ∃ v, (get method.identity k).1 = .ok v ∧
      v.isCallable = true := by
    intro method hmethod
    obtain ⟨t, hdone, hsame⟩ := recalled_of_bootstrap heval hi hok hk hunset
      (.approve method) (by simp [CompiledType.validating, ← hcompiled, hmethod])
    rw [hsame]
    exact checkMethod_ok ((during_fst .sanityCheck _ _).symm.trans hdone)
  refine ⟨hcompiled, ?_, hmethods, ?_, ?_⟩
  · intro r hr path hpath
    obtain ⟨t, hdone, hsame⟩ := recalled_of_bootstrap heval hi hok hk hunset
      (.resolve r path) (by
        simp only [CompiledType.validating, List.mem_append, List.mem_cons, List.mem_flatMap,
          List.mem_map, ← hcompiled]
        exact .inl (.inr (.inl (.inl (.inl ⟨r, hr, path, hpath, rfl⟩)))))
    rw [hsame]
    exact checkPath_ok ((during_fst .sanityCheck _ _).symm.trans hdone)
  · intro installer hinstaller
    obtain ⟨t, hdone, hsame⟩ := recalled_of_bootstrap heval hi hok hk hunset
      (.install installer) (by simp [CompiledType.installing, ← hcompiled, hinstaller])
    rw [hsame]
    exact runInstaller_ok ((during_fst .install _ _).symm.trans hdone)
  · intro method hmethod hrunner
    obtain ⟨v, hv, hcallable⟩ := hmethods method hmethod
    rw [hrunner] at hv
    exact ⟨v, hv, hcallable, fun misstep hmisstep => undertake_refused hmisstep,
      run_found (hi.becomes hrun) (materialized_of_bootstrap heval hok hk) hv⟩

end

end Instance

/-! ## A runner that is found early

A type runs what a delegate leads to, which is a method of a component. A checker calls the delegate
and so has its cell filled before it is looked at itself. -/

namespace Spinning

def disk : Factory :=
  ⟨.given 0, "Disk", [], [], none,
    .object "Disk" [] [("install", .give .null), ("spin", .give (.int 1))]⟩

/-- What checks the delegate, and what asks for it. -/
def checker : Callable :=
  ⟨.given 1, "spins", [], true, none, .call "runner"⟩

def opener : Callable :=
  ⟨.given 2, "open", ["runner", "components.disk"], false, none, .giveArgs⟩

def machine : Compilation :=
  .ofOk .builtIn 0
    { name := "Machine"
      blocks := [{ identity := "Components", entries := [("disk", .factory disk)] }]
      members := [("open", .callable opener)] }
    [] (by decide +kernel)

def driven : Compilation :=
  .ofOk .builtIn 1
    { name := "Driven"
      blocks := [{ identity := "Methods", entries := [("runner", .str "components.disk.spin")] }] }
    [machine.compiled] (by decide +kernel)

def checked : Compilation :=
  .ofOk .builtIn 2
    { name := "Checked"
      blocks := [{ identity := "Checkers", entries := [("spins", .callable checker)] }] }
    [driven.compiled] (by decide +kernel)

def installed : Compilation :=
  .ofOk .builtIn 3
    { name := "Installed"
      blocks := [{ identity := "Install", entries := [("disk", .str "components.disk")] }] }
    [checked.compiled] (by decide +kernel)

def start : Instance :=
  Instance.ofType installed.compiled

/-- The instance after its bootstrap. -/
def ready : Instance :=
  (bootstrap native start).2

theorem bootstrap_valid_ready :
    (bootstrap native start).1 = .ok () ∧
    installed.compiled.requirements.map Requirement.paths = [["runner", "components.disk"]] ∧
    installed.compiled.methods.map Method.identity = ["runner"] ∧
    installed.compiled.installers.map Installer.path = ["components.disk"] ∧
    ready.Valid native := by
  have hok : (bootstrap native start).1 = .ok () := eq_ok_okValue (by decide +kernel)
  have hunset : ready.written = start.written := by
    have hempty : ready.written.isEmpty = true := by decide +kernel
    exact List.isEmpty_iff.mp hempty
  have hvalid := Instance.bootstrap_valid native_free (.ofType installed.compiled) hok
    (Std.Refl.refl ready) hunset
  exact ⟨hok, by decide +kernel, by decide +kernel, by decide +kernel, hvalid.2⟩

end Spinning

end AppAssembly
