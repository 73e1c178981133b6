import Phrasebook.Text.Position
import Phrasebook.Input.Lexeme

/-!
# Calls of an input

An input holds one list of tokens per call (`tokenize`): its lexemes, cut at the separators, without
the empty pieces. Where exactly one call is expected, `tokenizeSingle` gives its tokens.
-/

namespace Phrasebook.Input

open Phrasebook.Text

/-- Why an input does not hold the expected calls. -/
inductive InputFault where
  | lexeme (cause : LexemeCause) (position : Position)
  | notSingle (input : String)
  deriving DecidableEq, Repr

/-- The wording of a fault. -/
def InputFault.message : InputFault → String
  | .lexeme .incompleteEscape position =>
    "Incomplete escape sequence: `\\` at " ++ position.render
  | .lexeme (.malformedValue cause) position => cause.message ++ " at " ++ position.render
  | .notSingle input => "Expected single command: `" ++ input ++ "`"

/-- Puts a token in front of the first call. -/
def consToken (token : List Char) : List (List (List Char)) → List (List (List Char))
  | [] => [[token]]
  | call :: calls => (token :: call) :: calls

/-- The pieces between separators, also the empty ones. -/
def splitCalls : List Lexeme → List (List (List Char))
  | [] => [[]]
  | .separator :: more => [] :: splitCalls more
  | .token token :: more => consToken token (splitCalls more)

/-- The calls that lexemes form: the pieces between separators that hold a token. -/
def calls (lexemes : List Lexeme) : List (List (List Char)) :=
  (splitCalls lexemes).filter fun call => !call.isEmpty

/-- The calls of a text, with the text that was left at a fault. -/
def readCalls (text : List Char) : Except LexemeFault (List (List (List Char))) :=
  (lexemes text).map calls

/-- The fault with the position at which its lexeme begins. -/
def LexemeFault.within (fault : LexemeFault) (text : List Char) : InputFault :=
  .lexeme fault.cause (.after (text.take (text.length - fault.remaining.length)))

/-- The token lists of an input, one per call. -/
def tokenize (input : String) : Except InputFault (List (List String)) :=
  match readCalls input.toList with
  | .error fault => .error (fault.within input.toList)
  | .ok calls => .ok (calls.map fun call => call.map String.ofList)

/-- The tokens of an input that holds exactly one call. -/
def tokenizeSingle (input : String) : Except InputFault (List String) :=
  match tokenize input with
  | .error fault => .error fault
  | .ok [tokens] => .ok tokens
  | .ok _ => .error (.notSingle input)

end Phrasebook.Input
