import AppAssembly.Instance.Evaluate
import AppAssembly.Proofs.Acts

/-!
# What is done to the life cycle

Most of what an instance is used for leaves its life as it is: the phase, whether things were
created, and what the life cycle did. Building things adds deeds of one kind, and calling a value
does what the native code behind it does.
-/

namespace AppAssembly

/-- The step that a deed is a part of. -/
def Deed.step : Deed → Step
  | .enter step | .finish step | .abort step => step
  | .build _ => .createThings
  | .check _ => .sanityCheck
  | .install _ => .install
  | .run => .run

/-- What a step does between its beginning and its end. -/
inductive Deed.WorkOf : Step → Deed → Prop where
  | build (name : String) : WorkOf .createThings (.build name)
  | check (identity : String) : WorkOf .sanityCheck (.check identity)
  | install (identity : String) : WorkOf .install (.install identity)
  | run : WorkOf .run .run

theorem Deed.WorkOf.step_eq {step : Step} {d : Deed} (h : d.WorkOf step) : d.step = step := by
  cases h <;> rfl

/-! ## What is left alone -/

/-- Only deeds of a kind were added. -/
def Workshop.Adds (P : Deed → Prop) (w v : Workshop) : Prop :=
  ∃ work, v.deeds = w.deeds ++ work ∧ ∀ d ∈ work, P d

/-- Only deeds of a kind were added, and the instance is no further in its life. -/
structure Instance.Stays (P : Deed → Prop) (i j : Instance) : Prop where
  phase : j.phase = i.phase
  materialized : j.materialized = i.materialized
  work : i.workshop.Adds P j.workshop

/-- The same, if the instance has its things created. -/
def Instance.Settled (P : Deed → Prop) (i j : Instance) : Prop :=
  i.materialized = true → i.Stays P j

variable {P : Deed → Prop} {α : Type}

theorem Workshop.Adds.of_eq {w v : Workshop} (h : v.deeds = w.deeds) : w.Adds P v :=
  ⟨[], by rw [h, List.append_nil], by simp⟩

instance : Std.Refl (Workshop.Adds P) where
  refl _ := .of_eq rfl

instance : Trans (Workshop.Adds P) (Workshop.Adds P) (Workshop.Adds P) where
  trans := by
    rintro u v w ⟨first, hv, hfirst⟩ ⟨second, hw, hsecond⟩
    refine ⟨first ++ second, by rw [hw, hv, List.append_assoc], ?_⟩
    intro d hd
    rcases List.mem_append.mp hd with hd | hd
    · exact hfirst d hd
    · exact hsecond d hd

instance : Std.Refl (Instance.Stays P) where
  refl i := ⟨rfl, rfl, Std.Refl.refl i.workshop⟩

instance : Trans (Instance.Stays P) (Instance.Stays P) (Instance.Stays P) where
  trans h h' :=
    ⟨h'.phase.trans h.phase, h'.materialized.trans h.materialized, Trans.trans h.work h'.work⟩

instance : Std.Refl (Instance.Settled P) where
  refl i _ := Std.Refl.refl i

instance : Trans (Instance.Settled P) (Instance.Settled P) (Instance.Settled P) where
  trans h h' hi :=
    have hj := h hi
    Trans.trans hj (h' (hj.materialized.trans hi))

/-! ## Looking up, setting, building -/

namespace Instance

theorem putCell_stays (i : Instance) (name : String) (d : Delegate) (c : Cell) :
    i.Stays P (i.putCell name d c) :=
  ⟨rfl, rfl, .of_eq rfl⟩

/-- Looking up a name changes no more than cells. -/
theorem lookup_stays (name : String) (i : Instance) : i.Stays P (lookup name i).2 := by
  fun_induction lookup name i with
  | case7 name i _ _ _ _ _ d _ _ _ path begun first j hfirst answer c _ ih =>
      have hbegun : i.Stays P begun := putCell_stays i name d .resolving
      have hj : begun.Stays P j := by
        split at hfirst
        · cases hfirst
          exact Std.Refl.refl begun
        · rw [hfirst] at ih
          exact ih
      -- meanwhile the cell may have changed, but that is all
      have hdone : j.Stays P (j.putCell name d c) := putCell_stays j name d c
      exact Trans.trans (Trans.trans hbegun hj) hdone
  | _ => exact Std.Refl.refl _

/-- Looks up the first segment of a path. -/
def seek (name : String) : Act Instance (Option Value) :=
  if name = "" then pure none else lookup name

theorem resolve_apply (i j : Instance) (path : String) :
    i.asNamespace.resolve path j =
      ((seek (Path.ofText path).head j).1.bind ((Path.ofText path).follow i.describe),
        (seek (Path.ofText path).head j).2) :=
  i.asNamespace.resolve_apply path j

theorem get_apply (path : String) (i : Instance) :
    get path i =
      ((seek (Path.ofText path).head i).1.bind ((Path.ofText path).follow i.describe),
        (seek (Path.ofText path).head i).2) :=
  resolve_apply i i path

theorem resolve_stays (i : Instance) (path : String) :
    (i.asNamespace.resolve path).Keeps (Stays P) := by
  unfold Namespace.resolve Namespace.lookupHead
  refine Act.Keeps.bind ?_ fun _ => Act.keeps_ofExcept _
  split
  · exact Act.keeps_pure none
  · exact lookup_stays _

theorem get_stays (path : String) : (get path).Keeps (Stays P) := by
  intro i
  exact i.resolve_stays path i

theorem set_stays (name : String) (v : Value) : (set name v).Keeps (Stays P) := by
  intro i
  unfold set
  split
  · exact ⟨rfl, rfl, .of_eq rfl⟩
  · split
    · exact Std.Refl.refl i
    · split
      · exact Std.Refl.refl i
      · exact ⟨rfl, rfl, .of_eq rfl⟩

theorem inWorkshop_stays {act : Act Workshop α} (h : act.Keeps (Workshop.Adds P)) :
    (inWorkshop act).Keeps (Stays P) := by
  intro i
  exact ⟨rfl, rfl, h i.workshop⟩

theorem write_stays (line : String) : (write line).Keeps (Stays P) :=
  inWorkshop_stays fun _ => .of_eq rfl

theorem note_stays {d : Deed} (h : P d) : (note d).Keeps (Stays P) := by
  refine inWorkshop_stays fun w => ⟨[d], rfl, ?_⟩
  simpa using h

end Instance

open Instance

/-- What a factory makes is no deed of the life cycle, as it is made at the bench. -/
theorem Factory.construct_deeds (f : Factory) (kwargs : Kwargs) (make : Builder) (w : Workshop) :
    (f.construct kwargs make w).2.deeds = w.deeds := by
  unfold Factory.construct
  split <;> rfl

theorem Factory.call_stays (f : Factory) (make : Builder) : (f.call make).Keeps (Stays P) := by
  refine inWorkshop_stays fun w => .of_eq ?_
  rw [← f.construct_deeds [] make w]
  split <;> simp [*]

theorem Factory.buildFor_adds (f : Factory) (make : Builder) (name : String) (kwargs : Kwargs)
    (origin : Origin) :
    (f.buildFor make name kwargs origin).Keeps (Workshop.Adds (Deed.WorkOf .createThings)) := by
  intro w
  have hdeeds := f.construct_deeds kwargs make (w.note (.build name))
  refine ⟨[.build name], ?_, ?_⟩
  · unfold Factory.buildFor
    split <;> simp_all [Workshop.note]
  · intro d hd
    rw [List.mem_singleton.mp hd]
    exact .build name

theorem Deferred.materialize_adds (item : Deferred) (make : Builder) :
    (item.materialize make).Keeps (Workshop.Adds (Deed.WorkOf .createThings)) := by
  cases item with
  | custom object => exact object.factory.buildFor_adds _ _ _ _
  | components group =>
      refine Act.Keeps.bind (Act.keeps_mapList fun entry => ?_) fun _ => ?_
      · obtain ⟨name, source⟩ := entry
        cases source with
        | value v => exact Act.keeps_pure _
        | factory f => exact (f.buildFor_adds _ _ _ _).bind fun _ => Act.keeps_pure _
      · refine Act.Keeps.bind (fun w => ?_) fun _ => Act.keeps_pure _
        exact .of_eq rfl

/-! ## Calling -/

/-- Looking things up and calling them keeps a relation. -/
structure CallsKeep (eval : Evaluator) (R : Instance → Instance → Prop) : Prop where
  get : ∀ path, (Instance.get path).Keeps R
  build : ∀ f : Factory, (f.call eval.make).Keeps R
  native : ∀ script args, (eval.run script args).Keeps R

namespace CallsKeep

variable {R : Instance → Instance → Prop} {eval : Evaluator}

theorem resolve (h : CallsKeep eval R) (i : Instance) (path : String) :
    (i.asNamespace.resolve path).Keeps R := by
  intro j
  -- where the path starts from only shows in errors
  have hj : (i.asNamespace.resolve path j).2 = (Instance.get path j).2 := by
    rw [get_apply, resolve_apply]
  rw [hj]
  exact h.get path j

variable [Std.Refl R]

theorem objCall (h : CallsKeep eval R) (o : Obj) (name : String) (args : List Value) :
    (o.call eval name args).Keeps R := by
  unfold Obj.call
  split
  · exact h.native _ _
  · exact Act.keeps_fail _

variable [Trans R R R]

theorem callableCall (h : CallsKeep eval R) (c : Callable) (args : List Value) :
    (c.call eval args).Keeps R :=
  Act.Keeps.bind (Act.keeps_mapList fun path => (h.get path).mapError _) fun _ => h.native _ _

/-- A value does nothing but look things up and run native code when it is called. -/
theorem invoke (h : CallsKeep eval R) (v : Value) (args : List Value) :
    (v.invoke eval args).Keeps R := by
  unfold Value.invoke
  split
  · exact h.callableCall _ _
  · exact h.objCall _ _ _
  · split
    · exact h.build _
    · exact Act.keeps_fail _
  · exact Act.keeps_fail _

/-! ## The work of the steps -/

theorem runChecker (h : CallsKeep eval R) {checker : Checker}
    (hnote : (note (.check checker.identity)).Keeps R) :
    (Instance.runChecker eval checker).Keeps R := by
  refine Act.Keeps.bind (h.get _) fun v => ?_
  split
  · split
    · exact hnote.bind fun _ => (h.callableCall _ []).bind fun _ => Act.keeps_pure ()
    · exact Act.keeps_pure ()
  · exact hnote.bind fun _ => (h.objCall _ _ []).bind fun _ => Act.keeps_pure ()
  · exact Act.keeps_pure ()

theorem checkMethod (h : CallsKeep eval R) (method : Method) :
    (Instance.checkMethod method).Keeps R := by
  refine Act.Keeps.bind (h.get _) fun v => Act.keeps_state.bind fun i => ?_
  split
  · exact Act.keeps_pure ()
  · exact Act.keeps_fail _

theorem checkAll (h : CallsKeep eval R)
    (hnote : ∀ identity, (note (.check identity)).Keeps R) :
    (Instance.checkAll eval).Keeps R := by
  refine Act.keeps_state.bind fun i => ?_
  refine (Act.keeps_forEach fun requirement _ => Act.keeps_forEach fun path _ => ?_).bind
    fun _ => ?_
  · exact ((h.resolve i path).mapError _).bind fun _ => Act.keeps_pure ()
  refine (Act.keeps_forEach fun checker _ => h.runChecker (hnote _)).bind fun _ => ?_
  exact Act.keeps_forEach fun method _ => h.checkMethod method

theorem runInstaller (h : CallsKeep eval R) {installer : Installer}
    (hnote : (note (.install installer.identity)).Keeps R) :
    (Instance.runInstaller eval installer).Keeps R := by
  refine Act.Keeps.bind ((h.get _).mapError _) fun target => ?_
  split
  · split
    · exact hnote.bind fun _ => (h.objCall _ _ []).bind fun _ => Act.keeps_pure ()
    · exact Act.keeps_fail _
  · exact Act.keeps_fail _

theorem installAll (h : CallsKeep eval R)
    (hnote : ∀ identity, (note (.install identity)).Keeps R) :
    (Instance.installAll eval).Keeps R :=
  Act.keeps_state.bind fun _ => Act.keeps_forEach fun _ _ => h.runInstaller (hnote _)

theorem callRunner (h : CallsKeep eval R) (hnote : (note .run).Keeps R) :
    (Instance.callRunner eval).Keeps R := by
  refine Act.keeps_state.bind fun i => ?_
  refine Act.Keeps.bind ((h.get _).mapError _) fun runner => ?_
  exact hnote.bind fun _ => h.invoke runner []

end CallsKeep

theorem Instance.Stays.settled {i j : Instance} (h : i.Stays P j) : i.Settled P j :=
  fun _ => h

theorem Instance.Stays.of_none {i j : Instance} (h : i.Stays (fun _ => False) j) :
    i.Stays P j := by
  obtain ⟨hphase, hmaterialized, work, hdeeds, hwork⟩ := h
  exact ⟨hphase, hmaterialized, work, hdeeds, fun d hd => (hwork d hd).elim⟩

theorem Instance.note_settled {d : Deed} (h : P d) : (note d).Keeps (Settled P) :=
  (note_stays h).mono Stays.settled

end AppAssembly
