/-!
# Resumable computations

A computation on a state that may give control back and be resumed later: `Resumable σ α`. Between two
suspensions it acts on the state. `Resumable.run` resumes it until it is done, and is a morphism of
monads into `StateM σ` (`run_pure`, `run_bind`): a computation that is awaited does what its steps do,
in their order, however often it is suspended.
-/

namespace Phrasebook

/-- A computation on a state `σ` with a result `α` that may be suspended. -/
inductive Resumable (σ α : Type) where
  /-- The result. -/
  | done (value : α)
  /-- Changes the state, and goes on as the state before the change demands. -/
  | act (update : σ → σ) (next : σ → Resumable σ α)
  /-- Gives control back, and goes on when it is resumed. -/
  | suspend (next : Resumable σ α)

namespace Resumable

variable {σ α β : Type}

/-- Goes on with the result of a computation. -/
def bind (first : Resumable σ α) (next : α → Resumable σ β) : Resumable σ β :=
  match first with
  | .done value => next value
  | .act update rest => .act update fun state => (rest state).bind next
  | .suspend rest => .suspend (rest.bind next)

instance : Monad (Resumable σ) where
  pure := .done
  bind := bind

/-- A computation that is not suspended. -/
def lift (action : StateM σ α) : Resumable σ α :=
  .act (fun state => (action state).2) fun state => .done (action state).1

/-- Resumes a computation until it is done. -/
def run : Resumable σ α → StateM σ α
  | .done value => pure value
  | .act update next => fun state => (next state).run (update state)
  | .suspend next => next.run

@[simp] theorem run_pure (value : α) : (pure value : Resumable σ α).run = pure value := rfl

@[simp] theorem run_bind (first : Resumable σ α) (next : α → Resumable σ β) :
    (first >>= next).run = first.run >>= fun value => (next value).run := by
  change (first.bind next).run = _
  induction first with
  | done value => rfl
  | act update rest ih =>
    funext state
    simp only [bind, run, ih]
    rfl
  | suspend rest ih => simpa only [bind, run] using ih

@[simp] theorem run_lift (action : StateM σ α) : (lift action).run = action := rfl

end Resumable

end Phrasebook
