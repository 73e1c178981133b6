import Phrasebook.Command.Resolve
import Phrasebook.Batch.Output

/-!
# Executing inputs

The calls of an input are executed as one batch. All of them are resolved before the first handler runs:
an input that cannot be resolved gives one failure and runs nothing. Handlers then run one after
another, and the first failure ends the batch with its message.

`executeEach` is the rule, for handlers in any monad; the others fix where handlers come from: the
commands (`execute`, `executeAsync`) or one handler for all calls (`executeWith`, `executeAsyncWith`).
-/

namespace Phrasebook

variable {σ N : Type}

section

variable {m : Type → Type} [Monad m]

/-- Runs a handler on one resolved call after another, up to the first failure. -/
def runCalls (handler : Resolution σ N → m Answer) :
    List (Resolution σ N) → m (List Output)
  | [] => pure []
  | resolution :: resolutions => do
    match ← handler resolution with
    | .error failure => pure [.failure failure.message]
    | .ok value =>
      let outputs ← runCalls handler resolutions
      pure (.value value :: outputs)

/-- Resolves all calls of an input and runs a handler on them. -/
def executeEach (handler : Resolution σ N → m Answer) (input : String)
    (commands : List (Command σ N)) : m (List Output) :=
  match resolveInput input commands with
  | .error failure => pure [.failure failure.message]
  | .ok resolutions => runCalls handler resolutions

end

/-- Runs one handler on every call of an input. -/
def executeWith (handler : Handler σ N) (input : String) (commands : List (Command σ N)) :
    StateM σ (List Output) :=
  executeEach (fun resolution => handler resolution.call) input commands

/-- Runs the handlers of the called commands. -/
def execute (input : String) (commands : List (Command σ N)) : StateM σ (List Output) :=
  executeEach (fun resolution => resolution.command.answer resolution.call) input commands

/-- Runs one handler that may be suspended on every call of an input, awaiting each before the next. -/
def executeAsyncWith (handler : AsyncHandler σ N) (input : String)
    (commands : List (Command σ N)) : Resumable σ (List Output) :=
  executeEach (fun resolution => handler resolution.call) input commands

/-- Runs the handlers of the called commands where they may be suspended, awaiting each before the
next. -/
def executeAsync (input : String) (commands : List (Command σ N)) : Resumable σ (List Output) :=
  executeEach (fun resolution => resolution.command.answerAsync resolution.call) input commands

end Phrasebook
