import BlockTally.Error

/-! Computations that change a state and may fail. A failure keeps what was changed before it. -/

set_option autoImplicit false

namespace BlockTally

abbrev Change (σ : Type) := EStateM Error σ

/-- A check that changes nothing is also a change. -/
instance {σ : Type} : MonadLift (Except Error) (EStateM Error σ) where
  monadLift
    | .ok a => pure a
    | .error e => throw e

namespace Change

variable {σ τ α : Type}

/-- Let a change of a part act on the whole. -/
def within (read : σ → τ) (write : σ → τ → σ) (change : Change τ α) : Change σ α := fun s =>
  match change (read s) with
  | .ok a t => .ok a (write s t)
  | .error e t => .error e (write s t)

/-- The state that a run leaves, whether it failed or not. -/
def finalState : EStateM.Result Error σ α → σ
  | .ok _ s => s
  | .error _ s => s

@[simp] theorem within_ok (read : σ → τ) (write : σ → τ → σ) (change : Change τ α) (s : σ) (a : α) (t : τ)
    (done : change (read s) = .ok a t) : within read write change s = .ok a (write s t) := by
  simp [within, done]

@[simp] theorem within_error (read : σ → τ) (write : σ → τ → σ) (change : Change τ α) (s : σ) (e : Error)
    (t : τ) (failed : change (read s) = .error e t) : within read write change s = .error e (write s t) := by
  simp [within, failed]

end Change

end BlockTally
