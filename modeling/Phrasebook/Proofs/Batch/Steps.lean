import Mathlib.Logic.Relation
import Phrasebook.Batch.Resumable

/-!
# Resumable computations, step by step

`Resumable.run` resumes a computation at once and knows nothing of what happens meanwhile. Here a computation
goes on in steps (`Step`), and while it is suspended others may change the state, in the ways that
`others` allows. `Reach` is any number of steps.

* `Reach.split`: a point that is reached from a computation with another one behind it lies within the first
  one, or the first one is done and the point is reached from the second.
* `beside`: a computation next to a log that it does not touch. A point that is reached from it is one of
  the computation by itself, with the log as it was (`reach_beside`).
-/

namespace Phrasebook

namespace Resumable

variable {σ τ α β : Type}

/-- A computation and the state in which it goes on. -/
abbrev Point (σ α : Type) := Resumable σ α × σ

/-- A step: a change of the state, or the resumption of a suspended computation in a state that others
may have changed. -/
inductive Step (others : σ → σ → Prop) : Point σ α → Point σ α → Prop
  | act (update : σ → σ) (next : σ → Resumable σ α) (state : σ) :
    Step others (.act update next, state) (next state, update state)
  | suspend (next : Resumable σ α) {state state' : σ} :
    others state state' → Step others (.suspend next, state) (next, state')

/-- Any number of steps. -/
abbrev Reach (others : σ → σ → Prop) : Point σ α → Point σ α → Prop :=
  Relation.ReflTransGen (Step others)

variable {others : σ → σ → Prop}

/-- A computation that is done makes no step. -/
theorem Reach.eq_of_done {value : α} {state : σ} {point : Point σ α}
    (h : Reach others (.done value, state) point) : point = (.done value, state) := by
  rcases h.cases_head with same | ⟨next, step, -⟩
  · exact same.symm
  · cases step

/-- A change of the state goes on as the state before demands. -/
theorem Reach.cases_act {update : σ → σ} {next : σ → Resumable σ α} {state : σ} {point : Point σ α}
    (h : Reach others (.act update next, state) point) :
    point = (.act update next, state) ∨ Reach others (next state, update state) point := by
  rcases h.cases_head with same | ⟨middle, step, rest⟩
  · exact .inl same.symm
  · cases step
    exact .inr rest

/-- A step of a computation with another one behind it is one of the first, or the first is done. -/
theorem Step.of_bind {first : Resumable σ α} {next : α → Resumable σ β} {state : σ}
    {point : Point σ β} (h : Step others (first.bind next, state) point) :
    (∃ first' state', Step others (first, state) (first', state') ∧
        point = (first'.bind next, state')) ∨
      ∃ value, first = .done value ∧ Step others (next value, state) point := by
  cases first with
  | done value => exact .inr ⟨value, rfl, h⟩
  | act update rest =>
    cases h
    exact .inl ⟨rest state, update state, .act update rest state, rfl⟩
  | suspend rest =>
    cases h with
    | suspend _ allowed => exact .inl ⟨rest, _, .suspend rest allowed, rfl⟩

/-- What is reached from a computation with another one behind it lies within the first, or behind it. -/
theorem Reach.split {first : Resumable σ α} {next : α → Resumable σ β} {state : σ}
    {point : Point σ β} (h : Reach others (first.bind next, state) point) :
    (∃ first', Reach others (first, state) (first', point.2) ∧ point.1 = first'.bind next) ∨
      ∃ value state', Reach others (first, state) (.done value, state') ∧
        Reach others (next value, state') point := by
  generalize start : (first.bind next, state) = begin at h
  induction h using Relation.ReflTransGen.head_induction_on generalizing first state with
  | refl =>
    subst start
    exact .inl ⟨first, .refl, rfl⟩
  | head step rest ih =>
    subst start
    rcases step.of_bind with ⟨first', state', own, rfl⟩ | ⟨value, rfl, behind⟩
    · rcases ih rfl with ⟨last, reached, equal⟩ | ⟨value, state'', reached, behind⟩
      · exact .inl ⟨last, .head own reached, equal⟩
      · exact .inr ⟨value, state'', .head own reached, behind⟩
    · exact .inr ⟨value, state, .refl, .head behind rest⟩

/-- A computation with another one behind it is done when both are. -/
theorem Reach.split_done {first : Resumable σ α} {next : α → Resumable σ β} {state state' : σ}
    {result : β} (h : Reach others (first.bind next, state) (.done result, state')) :
    ∃ value behind, Reach others (first, state) (.done value, behind) ∧
      Reach others (next value, behind) (.done result, state') := by
  rcases h.split with ⟨last, reached, equal⟩ | behind
  · cases last with
    | done value =>
      have same : .done result = next value := equal
      exact ⟨value, state', reached, same ▸ .refl⟩
    | act update rest => cases equal
    | suspend rest => cases equal
  · exact behind

/-! ## Computations beside a log -/

/-- The same computation next to a state that it leaves alone. -/
def beside : Resumable σ α → Resumable (σ × τ) α
  | .done value => .done value
  | .act update next => .act (fun state => (update state.1, state.2)) fun state => (next state.1).beside
  | .suspend next => .suspend next.beside

theorem run_beside (computation : Resumable σ α) (state : σ) (aside : τ) :
    computation.beside.run (state, aside) =
      ((computation.run state).1, (computation.run state).2, aside) := by
  induction computation generalizing state with
  | done value => rfl
  | act update next ih => exact ih state (update state)
  | suspend next ih => exact ih state

/-- The same changes of a state, next to one that nobody else changes. -/
def Sheltered (others : σ → σ → Prop) (before after : σ × τ) : Prop :=
  others before.1 after.1 ∧ after.2 = before.2

theorem Step.of_beside {computation : Resumable σ α} {state : σ} {aside : τ}
    {point : Point (σ × τ) α} (h : Step (Sheltered others) (computation.beside, (state, aside)) point) :
    ∃ computation' state', Step others (computation, state) (computation', state') ∧
      point = (computation'.beside, (state', aside)) := by
  cases computation with
  | done value => cases h
  | act update next =>
    cases h
    exact ⟨next state, update state, .act update next state, rfl⟩
  | suspend next =>
    cases h with
    | @suspend _ _ after allowed =>
      obtain ⟨state', _⟩ := after
      obtain ⟨allowed, rfl⟩ := allowed
      exact ⟨next, state', .suspend next allowed, rfl⟩

/-- What is reached next to a log is reached without it, and the log is as it was. -/
theorem reach_beside {computation : Resumable σ α} {state : σ} {aside : τ} {point : Point (σ × τ) α}
    (h : Reach (Sheltered others) (computation.beside, (state, aside)) point) :
    ∃ computation' state', Reach others (computation, state) (computation', state') ∧
      point = (computation'.beside, (state', aside)) := by
  induction h with
  | refl => exact ⟨computation, state, .refl, rfl⟩
  | tail _ step ih =>
    obtain ⟨middle, state', reached, rfl⟩ := ih
    obtain ⟨last, state'', own, rfl⟩ := step.of_beside
    exact ⟨last, state'', reached.tail own, rfl⟩

end Resumable

end Phrasebook
