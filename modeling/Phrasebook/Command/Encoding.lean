import Phrasebook.Command.Basic
import Phrasebook.Grammar.Encoding

/-!
# Commands as values and in debugging text

A command is encoded as an object with its name and the list of its parts (`Command.toValue`), where the
type of the names says how a name is written and read. Handlers are not encoded: `Command.ofValue` reads a
command without any, from an object with its members in any order or from a list of the two.
`Command.debugText` shows a command with its structure, and of the handlers whether they are bound.
-/

namespace Phrasebook

variable {σ N : Type}

namespace Command

/-- The value that stands for a command. -/
def toValue [ToValue N] (command : Command σ N) : Value :=
  .object [("name", ToValue.toValue command.name), ("components", Grammar.toValue command.grammar)]

/-- Checks the fields of a command in the order in which they are given. Its name is of type `N`. -/
def checkFields (N : Type) [FromValue N] : List (String × Value) → Except Mismatch Unit
  | [] => .ok ()
  | (name, value) :: members =>
    if name = "name" then do
      let _ : N ← fromValue value
      checkFields N members
    else if name = "components" then do
      let _ ← Grammar.ofValue value
      checkFields N members
    else checkFields N members

/-- Reads a command; it has no handlers. -/
def ofValue [FromValue N] : Value → Except Mismatch (Command σ N)
  | .object members => do
    checkFields N members
    let name : N ← required "name" (← field members "name")
    let components : Value ← required "components" (← field members "components")
    return { name, grammar := ← Grammar.ofValue components }
  | .array items => do
    let expected := "struct Command with 2 elements"
    let name :: rest := items | throw (.wrongLength 0 expected)
    let name ← fromValue name
    let components :: _ := rest | throw (.wrongLength 1 expected)
    let grammar ← Grammar.ofValue components
    Value.noMoreThan 2 (.array items)
    return { name, grammar }
  | found => .error (.wrongType found "struct Command")

end Command

/-! ## Debugging text -/

/-- Items between square brackets, with commas between them. -/
def bracketed (items : List String) : String :=
  "[" ++ ", ".intercalate items ++ "]"

/-- A name with fields between braces. -/
def braced (name : String) (fields : List (String × String)) : String :=
  name ++ " \x7b " ++ ", ".intercalate (fields.map fun (field, text) => field ++ ": " ++ text) ++
    " \x7d"

/-- A truth value. -/
def truthText (b : Bool) : String :=
  if b then "true" else "false"

mutual

/-- A part with its structure. -/
def Part.debugText : Part → String
  | .literal tokens caseSensitive => braced "Literal"
      [("tokens", bracketed (tokens.map Text.quoted)), ("case_sensitive", truthText caseSensitive)]
  | .argument name => braced "Argument" [("name", Text.quoted name)]
  | .optional body => braced "Optional" [("components", bracketed (Grammar.debugTexts body))]
  | .choices alternatives =>
    braced "Choices" [("choices", bracketed (Grammar.alternativeTexts alternatives))]

/-- The parts of a grammar with their structure. -/
def Grammar.debugTexts : List Part → List String
  | [] => []
  | part :: parts => part.debugText :: Grammar.debugTexts parts

/-- Alternatives with their structure. -/
def Grammar.alternativeTexts : List (List Part) → List String
  | [] => []
  | alternative :: alternatives =>
    bracketed (Grammar.debugTexts alternative) :: Grammar.alternativeTexts alternatives

end

/-- A command with its structure. -/
def Command.debugText (command : Command σ String) : String :=
  braced "Command" [("name", Text.quoted command.name),
    ("components", bracketed (Grammar.debugTexts command.grammar)),
    ("handler", truthText command.handler.isSome),
    ("async_handler", truthText command.asyncHandler.isSome)]

end Phrasebook
