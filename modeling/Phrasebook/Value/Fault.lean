/-!
# Faults in the text of a value

Why a text does not spell a value: `SyntaxCause`, with its wording in `SyntaxCause.message`. While a
text is being read, a fault carries the text that was left at the place of the fault (`Fault`), which
does not change when something is put in front; callers are told the number of characters before that
place (`SyntaxError`).
-/

namespace Phrasebook.Value

/-- Why a text does not spell a value. -/
inductive SyntaxCause where
  | unterminatedComment
  | missingValue
  | unexpectedCharacter (c : Char)
  | trailingCharacter (c : Char)
  | unterminatedString (quote : Char)
  | unterminatedArray
  | unterminatedObject
  | incompleteEscape
  | invalidCodeEscape
  | unpairedSurrogate
  | unexpectedInName (c : Char)
  | missingName
  | missingColon (name : String)
  deriving DecidableEq, Repr

/-- The wording of a cause. -/
def SyntaxCause.message : SyntaxCause → String
  | .unterminatedComment => "Unterminated block comment"
  | .missingValue => "Expected value, found end of input"
  | .unexpectedCharacter c => "Unexpected character: '" ++ c.toString ++ "'"
  | .trailingCharacter c => "Unexpected character after value: '" ++ c.toString ++ "'"
  | .unterminatedString quote => "Unterminated string: " ++ quote.toString
  | .unterminatedArray => "Unterminated array: '['"
  | .unterminatedObject => "Unterminated object: '\x7b'"
  | .incompleteEscape => "Incomplete escape sequence: `\\`"
  | .invalidCodeEscape => "Invalid unicode escape sequence"
  | .unpairedSurrogate => "Unpaired surrogate in unicode escape sequence"
  | .unexpectedInName c => "Unexpected character in property name: '" ++ c.toString ++ "'"
  | .missingName => "Expected property name"
  | .missingColon name => "Expected ':' after property name '" ++ name ++ "'"

/-- A cause with the text that was left where it arose. -/
structure Fault where
  cause : SyntaxCause
  remaining : List Char
  deriving DecidableEq, Repr

/-- A cause with the number of characters in front of the place where it arose. -/
structure SyntaxError where
  cause : SyntaxCause
  offset : Nat
  deriving DecidableEq, Repr

/-- The fault as seen by a caller who knows the whole text. -/
def Fault.within (fault : Fault) (text : List Char) : SyntaxError :=
  ⟨fault.cause, text.length - fault.remaining.length⟩

/-- The wording of an error. -/
def SyntaxError.message (e : SyntaxError) : String :=
  e.cause.message

end Phrasebook.Value
