import Phrasebook.Grammar.Compile
import Phrasebook.Call.Argument

/-!
# Failures

What can go wrong from a format string to an answer: `Failure`, by cause. Each is of one of four kinds,
which have stable names, and has a message. A handler may also raise a failure of its own.
-/

namespace Phrasebook

/-- The kinds of failures. -/
inductive FailureKind where
  | grammarSyntax
  | callSyntax
  | commandNotFound
  | argumentDecode
  deriving DecidableEq, Repr

/-- The stable name of a kind. -/
def FailureKind.name : FailureKind → String
  | .grammarSyntax => "grammar syntax"
  | .callSyntax => "call syntax"
  | .commandNotFound => "command not found"
  | .argumentDecode => "argument decode"

/-- A failure, by its cause. -/
inductive Failure where
  | format (fault : FormatFault)
  | input (fault : Input.InputFault)
  | commandNotFound (tokens : List String)
  | argument (fault : ArgumentFault)
  | raised (kind : FailureKind) (message : String)

namespace Failure

/-- The kind of a failure. -/
def kind : Failure → FailureKind
  | .format _ => .grammarSyntax
  | .input _ => .callSyntax
  | .commandNotFound _ => .commandNotFound
  | .argument _ => .argumentDecode
  | .raised kind _ => kind

/-- The wording of a failure. -/
def message : Failure → String
  | .format fault => fault.message
  | .input fault => fault.message
  | .commandNotFound tokens => "No matching command: " ++ ticked (" ".intercalate tokens)
  | .argument fault => fault.message
  | .raised _ message => message

end Failure

end Phrasebook
