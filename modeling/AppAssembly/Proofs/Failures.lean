import AppAssembly.Proofs.Installers
import AppAssembly.Proofs.Suppression

/-!
# How a bootstrap can fail

The errands of a bootstrap can fail in few ways (`Errand.perform_error`): with an accusation, since
they come at the wrong point, with what native code returned, or, when they go by the name of an
attribute, with the bare report on this name.
-/

namespace AppAssembly

open Instance

/-! ## Building -/

theorem accuses_of_build {make : Builder} {b : Build} {w : Workshop} {e : Error}
    (h : (b.run make w).1 = .error e) : e.Accuses := by
  unfold Build.run at h
  rw [Act.fst_bind_unit] at h
  have hbuild := Except.map_eq_error h
  unfold Factory.buildFor at hbuild
  split at hbuild
  · cases hbuild
  · cases hbuild
    exact Error.accuses_construction ..

/-! ## Calling native code -/

/-- When the value is called, the native code behind it returns an error. -/
inductive Value.Raises (eval : Evaluator) : Value → Instance → Error → Prop where
  /-- What a callable asks for was looked up before. -/
  | body {c : Callable} {i j : Instance} {required : List Value} {e : Error}
      (found : Act.mapList c.requires (fun path =>
        (get path).mapError (Error.intoRequirement .requires c.name c.origin)) i =
          (.ok required, j))
      (returned : (eval.run c.body required j).1 = .error e) : Raises eval (.callable c) i e
  | method {receiver : Obj} {name : String} {i : Instance} {e : Error}
      (returned : (receiver.call eval name [] i).1 = .error e) :
      Raises eval (.method receiver name) i e

/-- The native code that a bootstrap calls returns an error: a checker, or a method that installs an
object. A factory is called on behalf of a declaration, and what it returns is not passed on. -/
inductive Job.Raises (eval : Evaluator) : Job → Instance → Error → Prop where
  | check {checker : Checker} {v : Value} {i j : Instance} {e : Error}
      (found : get checker.identity i = (.ok v, j))
      (raises : v.Raises eval (note (.check checker.identity) j).2 e) :
      Raises eval (.check checker) i e
  | install {installer : Installer} {o : Obj} {i j : Instance} {e : Error}
      (found : get installer.path i = (.ok (.object o), j))
      (returned : (o.call eval installMethod []
        (note (.install installer.identity) j).2).1 = .error e) :
      Raises eval (.install installer) i e

theorem Act.exists_of_mapList_error {σ α β : Type} {act : α → Act σ β} {as : List α} {s t : σ}
    {e : Error} (h : Act.mapList as act s = (.error e, t)) :
    ∃ a ∈ as, ∃ u v, act a u = (.error e, v) := by
  induction as generalizing s with
  | nil => cases h
  | cons a as ih =>
      rcases Act.mapList_cons_error h with hfirst | ⟨b, u, _, hrest⟩
      · exact ⟨a, List.mem_cons_self, s, t, hfirst⟩
      · obtain ⟨other, hother, hfailed⟩ := ih hrest
        exact ⟨other, List.mem_cons_of_mem a hother, hfailed⟩

variable {eval : Evaluator} {i : Instance} {e : Error}

/-- A call that fails accuses somebody for a path that the callable asks for, or fails with what
native code has returned. -/
theorem Value.invoke_error {v : Value} (hv : v.isChecking = true)
    (h : (v.invoke eval [] i).1 = .error e) : e.Accuses ∨ v.Raises eval i e := by
  cases v with
  | callable c =>
      change (c.call eval [] i).1 = .error e at h
      unfold Callable.call at h
      rcases hrequired : Act.mapList c.requires (fun path =>
        (get path).mapError (Error.intoRequirement .requires c.name c.origin)) i
        with ⟨other | vs, j⟩
      · rw [Act.bind_error hrequired] at h
        cases h
        obtain ⟨path, _, k, l, hfailed⟩ := Act.exists_of_mapList_error hrequired
        exact .inl (accuses_of_get hfailed)
      · rw [Act.bind_ok hrequired, List.append_nil] at h
        exact .inr (.body hrequired h)
  | method receiver name => exact .inr (.method h)
  | _ => cases hv

/-! ## Errands -/

theorem runChecker_error {checker : Checker} (h : (runChecker eval checker i).1 = .error e) :
    e.Accuses ∨ (∃ m ∈ Errand.jobs eval.make (.check checker) i, m.1.Raises eval m.2 e) ∨
      (get checker.identity i).1 = .error e := by
  rcases hget : get checker.identity i with ⟨other | v, j⟩
  · rw [runChecker_unfound hget] at h
    cases h
    exact .inr (.inr rfl)
  · cases hv : v.isChecking with
    | false =>
        rw [runChecker_skipped hget hv] at h
        cases h
    | true =>
        have hnoted : note (.check checker.identity) j =
          (.ok (), (note (.check checker.identity) j).2) := rfl
        rw [runChecker_called hget hv, Act.bind_ok hnoted, Act.fst_bind_unit] at h
        rcases v.invoke_error hv (Except.map_eq_error h) with haccuses | hraises
        · exact .inl haccuses
        · refine .inr (.inl ⟨(.check checker, i), ?_, .check hget hraises⟩)
          simp [Errand.jobs, finds_of_ok hget, hv]

theorem checkMethod_error {method : Method} (h : (checkMethod method i).1 = .error e) :
    e.Accuses ∨ (get method.identity i).1 = .error e := by
  rcases hget : get method.identity i with ⟨other | v, j⟩
  · unfold checkMethod at h
    rw [Act.bind_error hget] at h
    cases h
    exact .inr rfl
  · unfold checkMethod at h
    rw [Act.bind_ok hget, Act.bind_ok (Act.state_apply j)] at h
    split at h
    · cases h
    · cases h
      exact .inl (Error.accuses_notCallable ..)

theorem runInstaller_error {installer : Installer}
    (h : (runInstaller eval installer i).1 = .error e) :
    e.Accuses ∨ ∃ m ∈ Errand.jobs eval.make (.install installer) i, m.1.Raises eval m.2 e := by
  have hinstalls := runInstaller_installs eval installer i
  rw [h] at hinstalls
  generalize hr : (Except.error e : Except Error Unit) = r at hinstalls
  cases hinstalls with
  | raised raises _ =>
      cases hr
      exact .inl (accuses_of_seek raises)
  | missing _ =>
      cases hr
      exact .inl (Error.accuses_requirement ..)
  | unfit _ _ =>
      cases hr
      exact .inl (Error.accuses_requirementAttribute ..)
  | @called o r target fit calls =>
      have hreturned : r = .error e := Except.map_eq_error hr.symm
      subst hreturned
      have hfound : get installer.path i = (.ok (.object o), (get installer.path i).2) :=
        Prod.ext target rfl
      refine .inr ⟨(.install installer, i), ?_, .install hfound calls⟩
      simp [Errand.jobs, finds_of_ok hfound, Value.isInstallable, fit]

/-- How an errand can fail. -/
theorem Errand.perform_error {errand : Errand} (h : (errand.perform eval i).1 = .error e) :
    e.Accuses ∨ (∃ phase misstep, e = .lifecycle phase misstep) ∨
      (∃ m ∈ errand.jobs eval.make i, m.1.Raises eval m.2 e) ∨
      ∃ identity found, errand.attribute? = some identity ∧ (get identity i).1 = .error e ∧
        e = .pathNotFound ⟨identity, i.describe, found⟩ := by
  have hnamed : ∀ {identity : String}, errand.attribute? = some identity →
      (get identity i).1 = .error e → e.Accuses ∨ ∃ identity found,
        errand.attribute? = some identity ∧ (get identity i).1 = .error e ∧
          e = .pathNotFound ⟨identity, i.describe, found⟩ := by
    intro identity hname hget
    exact (get_error hget).imp_right fun ⟨found, hfound⟩ => ⟨identity, found, hname, hget, hfound⟩
  cases errand with
  | enter step =>
      change (Instance.enter step i).1 = .error e at h
      cases hmisstep : i.misstep? step with
      | some misstep =>
          rw [enter_refused hmisstep] at h
          cases h
          exact .inr (.inl ⟨_, _, rfl⟩)
      | none =>
          unfold Instance.enter at h
          rw [hmisstep] at h
          cases h
  | create item =>
      have hbuilds : (Act.forEach item.builds (Build.run eval.make) i.workshop).1 = .error e :=
        (create_fst eval.make item i).symm.trans ((during_fst _ _ _).symm.trans h)
      obtain ⟨b, w, _, hfailed⟩ := Act.exists_failed hbuilds
      exact .inl (accuses_of_build hfailed)
  | resolve requirement path =>
      have hcheck : (checkPath requirement path i).1 = .error e := (during_fst _ _ _).symm.trans h
      unfold checkPath at hcheck
      rw [Act.fst_bind_unit] at hcheck
      exact .inl (accuses_of_get (Prod.ext (Except.map_eq_error hcheck) rfl))
  | check checker =>
      have hcheck : (runChecker eval checker i).1 = .error e := (during_fst _ _ _).symm.trans h
      rcases runChecker_error hcheck with haccuses | hraises | hget
      · exact .inl haccuses
      · exact .inr (.inr (.inl hraises))
      · exact (hnamed rfl hget).imp_right fun hlost => .inr (.inr hlost)
  | approve method =>
      have hcheck : (checkMethod method i).1 = .error e := (during_fst _ _ _).symm.trans h
      rcases checkMethod_error hcheck with haccuses | hget
      · exact .inl haccuses
      · exact (hnamed rfl hget).imp_right fun hlost => .inr (.inr hlost)
  | install installer =>
      have hinstall : (runInstaller eval installer i).1 = .error e :=
        (during_fst _ _ _).symm.trans h
      exact (runInstaller_error hinstall).imp_right fun hraises => .inr (.inl hraises)
  | finish step => cases h

/-- An errand that goes by the name of an attribute fails with what the look-up of this name fails
with. -/
theorem Errand.perform_unfound {errand : Errand} {identity : String}
    (hname : errand.attribute? = some identity) (h : (get identity i).1 = .error e) :
    (errand.perform eval i).1 = .error e := by
  have hget : get identity i = (.error e, (get identity i).2) := Prod.ext h rfl
  cases errand with
  | check checker =>
      obtain rfl := Option.some.inj hname
      show (during .sanityCheck (runChecker eval checker) i).1 = .error e
      rw [during_fst, runChecker_unfound hget]
  | approve method =>
      obtain rfl := Option.some.inj hname
      show (during .sanityCheck (checkMethod method) i).1 = .error e
      rw [during_fst]
      unfold checkMethod
      rw [Act.bind_error hget]
  | _ => cases hname

end AppAssembly
