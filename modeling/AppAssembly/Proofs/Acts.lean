import AppAssembly.Act

/-!
# What acts keep

An act keeps a relation if the relation holds between the state before and the state after, whether
the act fails or not. What is said here about composed acts holds for every relation that is
reflexive and transitive.
-/

namespace AppAssembly.Act

variable {σ α β : Type} {R S : σ → σ → Prop}

/-- The relation holds between the states before and after the act. -/
def Keeps (R : σ → σ → Prop) (act : Act σ α) : Prop :=
  ∀ s, R s (act s).2

theorem Keeps.mono {act : Act σ α} (h : act.Keeps R) (hRS : ∀ {s t}, R s t → S s t) :
    act.Keeps S := by
  intro s
  exact hRS (h s)

theorem keeps_pure [Std.Refl R] (a : α) : (pure a : Act σ α).Keeps R := by
  intro s
  exact Std.Refl.refl s

theorem keeps_fail [Std.Refl R] (e : Error) : (fail e : Act σ α).Keeps R := by
  intro s
  exact Std.Refl.refl s

theorem keeps_ofExcept [Std.Refl R] (r : Except Error α) : (ofExcept r : Act σ α).Keeps R := by
  intro s
  exact Std.Refl.refl s

theorem keeps_state [Std.Refl R] : (state : Act σ σ).Keeps R := by
  intro s
  exact Std.Refl.refl s

theorem Keeps.bind [Trans R R R] {act : Act σ α} {next : α → Act σ β} (h : act.Keeps R)
    (hnext : ∀ a, (next a).Keeps R) : (act >>= next).Keeps R := by
  intro s
  have hfirst := h s
  rw [bind_apply]
  cases hact : act s with
  | mk r t =>
      rw [hact] at hfirst
      cases r with
      | error e => exact hfirst
      | ok a => exact Trans.trans hfirst (hnext a t)

theorem Keeps.attempt {act : Act σ α} (h : act.Keeps R) : act.attempt.Keeps R := h

theorem Keeps.mapError {act : Act σ α} (h : act.Keeps R) (f : Error → Error) :
    (act.mapError f).Keeps R := by
  intro s
  have hs := h s
  unfold Act.mapError
  cases hact : act s with
  | mk r t =>
      rw [hact] at hs
      cases r <;> exact hs

theorem keeps_forEach [Std.Refl R] [Trans R R R] {as : List α} {act : α → Act σ Unit}
    (h : ∀ a ∈ as, (act a).Keeps R) : (forEach as act).Keeps R := by
  induction as with
  | nil => exact keeps_pure ()
  | cons a as ih =>
      obtain ⟨ha, has⟩ := List.forall_mem_cons.mp h
      exact ha.bind fun _ => ih has

theorem keeps_mapList [Std.Refl R] [Trans R R R] {as : List α} {act : α → Act σ β}
    (h : ∀ a, (act a).Keeps R) : (mapList as act).Keeps R := by
  induction as with
  | nil => exact keeps_pure []
  | cons a as ih => exact (h a).bind fun _ => ih.bind fun _ => keeps_pure _

end AppAssembly.Act
