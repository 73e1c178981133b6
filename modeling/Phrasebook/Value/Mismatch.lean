import Phrasebook.Text.Quoted
import Phrasebook.Value.Basic
import Phrasebook.Number.Digits
import Phrasebook.Number.Shortest

/-!
# Mismatches between values and shapes

Why a value cannot be taken for something of a wanted shape: `Mismatch`, with the wording in
`Mismatch.message`. A message names what was found (`Value.describe`) and what was expected.
-/

namespace Phrasebook

/-- Text between backticks. -/
def ticked (text : String) : String :=
  "`" ++ text ++ "`"

/-- What a value is, as messages name it. -/
def Value.describe : Value → String
  | .null => "null"
  | .bool b => "boolean " ++ ticked (if b then "true" else "false")
  | .int n => "integer " ++ ticked (String.ofList (Number.decimalInt n))
  | .float x => "floating point " ++ ticked (String.ofList x.text)
  | .string text => "string " ++ Text.quoted text
  | .array _ => "sequence"
  | .object _ => "map"

/-- Why a value does not have a shape. -/
inductive Mismatch where
  | wrongType (found : Value) (expected : String)
  | wrongValue (found : Value) (expected : String)
  | wrongLength (length : Nat) (expected : String)
  | missingField (name : String)
  | unknownVariant (name : String) (known : List String)

/-- The known variants, as a message offers them. -/
def offered : List String → String
  | [] => "nothing"
  | [only] => ticked only
  | [first, second] => ticked first ++ " or " ++ ticked second
  | many => "one of " ++ ", ".intercalate (many.map ticked)

/-- The wording of a mismatch. -/
def Mismatch.message : Mismatch → String
  | .wrongType found expected =>
    "invalid type: " ++ found.describe ++ ", expected " ++ expected
  | .wrongValue found expected =>
    "invalid value: " ++ found.describe ++ ", expected " ++ expected
  | .wrongLength length expected =>
    "invalid length " ++ toString length ++ ", expected " ++ expected
  | .missingField name => "missing field " ++ ticked name
  | .unknownVariant name known =>
    "unknown variant " ++ ticked name ++ ", expected " ++ offered known

end Phrasebook
