import AppAssembly.Error.Basic

/-!
# Acts

Computations that change a state and may fail. What an act did before it failed stays done, so the
state is part of both outcomes.
-/

namespace AppAssembly

/-- A computation on a state: a result or an error, and the state it leaves behind. -/
def Act (σ α : Type) : Type := σ → Except Error α × σ

namespace Act

variable {σ τ α β : Type}

/-- Runs an act. -/
def run (act : Act σ α) (s : σ) : Except Error α × σ := act s

instance : Monad (Act σ) where
  pure a s := (.ok a, s)
  bind act next s :=
    match act s with
    | (.ok a, s) => next a s
    | (.error e, s) => (.error e, s)

/-- Fails and leaves the state as it is. -/
def fail (e : Error) : Act σ α := fun s => (.error e, s)

/-- A result that is there already. -/
def ofExcept (r : Except Error α) : Act σ α := fun s => (r, s)

def state : Act σ σ := fun s => (.ok s, s)

def modify (f : σ → σ) : Act σ Unit := fun s => (.ok (), f s)

/-- The outcome of an act, which does not fail. -/
def attempt (act : Act σ α) : Act σ (Except Error α) := fun s =>
  let (r, s) := act s
  (.ok r, s)

def mapError (f : Error → Error) (act : Act σ α) : Act σ α := fun s =>
  match act s with
  | (.ok a, s) => (.ok a, s)
  | (.error e, s) => (.error (f e), s)

/-- Runs an act for each element, in order, up to the first failure. -/
def forEach : List α → (α → Act σ Unit) → Act σ Unit
  | [], _ => pure ()
  | a :: as, act => do
      act a
      forEach as act

/-- The results of an act on each element, in order, up to the first failure. -/
def mapList : List α → (α → Act σ β) → Act σ (List β)
  | [], _ => pure []
  | a :: as, act => do
      let b ← act a
      let bs ← mapList as act
      return b :: bs

/-! ## Running -/

@[simp] theorem pure_apply (a : α) (s : σ) : (pure a : Act σ α) s = (.ok a, s) := rfl

theorem bind_apply (act : Act σ α) (next : α → Act σ β) (s : σ) :
    (act >>= next) s =
      match act s with
      | (.ok a, s) => next a s
      | (.error e, s) => (.error e, s) := rfl

theorem bind_error {act : Act σ α} {next : α → Act σ β} {s t : σ} {e : Error}
    (h : act s = (.error e, t)) : (act >>= next) s = (.error e, t) := by
  rw [bind_apply, h]

@[simp] theorem fail_apply (e : Error) (s : σ) : (fail e : Act σ α) s = (.error e, s) := rfl

@[simp] theorem modify_apply (f : σ → σ) (s : σ) : modify f s = (.ok (), f s) := rfl

@[simp] theorem state_apply (s : σ) : (state : Act σ σ) s = (.ok s, s) := rfl

theorem attempt_apply (act : Act σ α) (s : σ) : act.attempt s = (.ok (act s).1, (act s).2) := rfl

end Act

end AppAssembly
