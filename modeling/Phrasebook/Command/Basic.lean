import Phrasebook.Grammar.Format
import Phrasebook.Grammar.Match
import Phrasebook.Failure
import Phrasebook.Batch.Resumable

/-!
# Commands

A command is a grammar under a name, with up to two handlers for its calls: one that answers at once
and one that may be suspended. Handlers act on a state `σ` of the application, and names are of any type
`N`. A command is a plain value: renaming it or binding another handler makes a new one.
-/

namespace Phrasebook

/-- What a handler answers: a value, nothing, or a failure. -/
abbrev Answer := Except Failure (Option Value)

/-- A handler that answers at once. -/
abbrev Handler (σ N : Type) := Call N → StateM σ Answer

/-- A handler that may be suspended before it answers. -/
abbrev AsyncHandler (σ N : Type) := Call N → Resumable σ Answer

/-- A named grammar with its handlers. -/
structure Command (σ N : Type) where
  name : N
  grammar : Grammar
  handler : Option (Handler σ N) := none
  asyncHandler : Option (AsyncHandler σ N) := none

namespace Command

variable {σ N : Type}

/-- A command without handlers whose grammar is given by a format string. -/
def define (name : N) (format : String) : Except FormatFault (Command σ N) :=
  (compile format).map fun grammar => { name, grammar }

/-- Fits the grammar of a command to the front of a token list. -/
def match? (command : Command σ N) (tokens : List String) : Option Match :=
  Grammar.match? tokens command.grammar

/-- The format string of a command. -/
def format (command : Command σ N) : String :=
  Grammar.format command.grammar

/-- What a command answers to a call: nothing, if it has no handler. -/
def answer (command : Command σ N) (call : Call N) : StateM σ Answer :=
  match command.handler with
  | some handler => handler call
  | none => pure (.ok none)

/-- What a command answers to a call where handlers may be suspended. A handler that may be suspended
is preferred to one that may not. -/
def answerAsync (command : Command σ N) (call : Call N) : Resumable σ Answer :=
  match command.asyncHandler with
  | some handler => handler call
  | none => .lift (command.answer call)

end Command

end Phrasebook
