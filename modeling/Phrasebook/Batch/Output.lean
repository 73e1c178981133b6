import Phrasebook.Value.Decode

/-!
# Outputs of a batch

What a batch of calls gives back, one `Output` per call: the value of the handler, if it gave one, or the
message of the failure that ended the batch. An output is encoded as an object with a status and a
value (`Output.toValue`); `Output.ofValue` reads it back, from an object with its members in any order or
from a list of the two.
-/

namespace Phrasebook

/-- What one call of a batch gave. -/
inductive Output where
  | value (given : Option Value)
  | failure (message : String)

namespace Output

/-- Whether the output tells of a failure. -/
def isFailure : Output → Bool
  | .value _ => false
  | .failure _ => true

/-- The value, if there is one. -/
def value? : Output → Option Value
  | .value given => given
  | .failure _ => none

/-! ## Encoding -/

/-- The value that stands for an output. -/
def toValue : Output → Value
  | .value given => .object [("status", .string "value"), ("value", given.getD .null)]
  | .failure message => .object [("status", .string "error"), ("value", .string message)]

/-- What a status says of the value beside it. -/
inductive Status where
  | value
  | error
  deriving DecidableEq, Repr

/-- The names of the two. -/
def statusNames : List String := ["value", "error"]

/-- The status that a name stands for. -/
def Status.ofName (name : String) : Except Mismatch Status :=
  if name = "value" then .ok .value
  else if name = "error" then .ok .error
  else .error (.unknownVariant name statusNames)

/-- The status at the head of a list, where only its name will do. -/
def Status.ofHead : Value → Except Mismatch Status
  | .string name => Status.ofName name
  | found => .error (.wrongType found "variant identifier")

/-- The status in a member: its name, or an object whose one member is the name over null. -/
def Status.ofValue : Value → Except Mismatch Status
  | .string name => Status.ofName name
  | .object [(name, content)] => do
    let status ← Status.ofName name
    match content with
    | .null => return status
    | found => throw (.wrongType found "unit")
  | .object members => .error (.wrongValue (.object members) "map with a single key")
  | found => .error (.wrongType found "string or map")

/-- The output that a status and the value beside it stand for. -/
def ofContent : Status → Value → Except Mismatch Output
  | .value, content => return .value (← fromValue content)
  | .error, content => return .failure (← fromValue content)

/-- The output that a status stands for when no value is beside it. -/
def ofStatus : Status → Except Mismatch Output
  | .value => .ok (.value none)
  | .error => .error (.missingField "value")

/-- How messages call an output. -/
def expected : String := "adjacently tagged enum Output"

/-- Reads an output. -/
def ofValue : Value → Except Mismatch Output
  | .object members =>
    match Members.find? members "status" with
    | none => .error (.missingField "status")
    | some status => do
      let status ← Status.ofValue status
      match Members.find? members "value" with
      | none => ofStatus status
      | some content => ofContent status content
  | .array [] => .error (.wrongLength 0 expected)
  | .array [status] => do
    let _ ← Status.ofHead status
    throw (.wrongLength 1 expected)
  | .array (status :: content :: extra) => do
    let output ← ofContent (← Status.ofHead status) content
    Value.noMoreThan 2 (.array (status :: content :: extra))
    return output
  | found => .error (.wrongType found expected)

instance : FromValue Output := ⟨ofValue⟩

end Output

end Phrasebook
