/-!
# Loops in rounds

A loop takes a state to another one, round by round, until a round ends with a result. `rounds` runs a loop
for a limited number of rounds, so that nothing but the limit ends it. `rounds_eq_some` says when the limit
does not matter: if every round that goes on leaves less to do, and neither changes what the loop comes to,
then the result is there after as many rounds as there is to do.
-/

namespace Phrasebook

/-- Where a round of a loop leads: to a state for the next round, or to the result. -/
inductive Round (σ β : Type) where
  | next (state : σ)
  | done (result : β)

variable {σ β : Type}

/-- What a loop comes to within a number of rounds. A round that leads nowhere ends the loop without a
result, like the limit. -/
def rounds (round : σ → Option (Round σ β)) : Nat → σ → Option β
  | 0, _ => none
  | limit + 1, state =>
    match round state with
    | none => none
    | some (.done result) => some result
    | some (.next state) => rounds round limit state

/-- What one round does for a loop that comes to `result`: it ends with the result, or leaves less to do, by
`size`, and the same result to come to. -/
inductive Settles (round : σ → Option (Round σ β)) (holds : σ → Prop) (size : σ → Nat)
    (result : σ → β) (state : σ) : Prop
  | done : round state = some (.done (result state)) → Settles round holds size result state
  | next {later : σ} : round state = some (.next later) → holds later → size later < size state →
    result later = result state → Settles round holds size result state

/-- A loop whose rounds settle comes to its result within as many rounds as there is to do. -/
theorem rounds_eq_some {round : σ → Option (Round σ β)} {holds : σ → Prop} {size : σ → Nat}
    {result : σ → β} (settles : ∀ state, holds state → Settles round holds size result state)
    {limit : Nat} {state : σ} (start : holds state) (enough : size state < limit) :
    rounds round limit state = some (result state) := by
  induction limit generalizing state with
  | zero => exact absurd enough (Nat.not_lt_zero _)
  | succ limit ih =>
    rw [rounds]
    cases settles state start with
    | done ends => rw [ends]
    | next goes keeps less same =>
      rw [goes, ← same]
      exact ih keeps (Nat.lt_of_lt_of_le less (Nat.le_of_lt_succ enough))

end Phrasebook
