import Phrasebook.Text.Lowercase
import Phrasebook.Grammar.Basic
import Phrasebook.Grammar.Bindings

/-!
# Matching tokens with a grammar

`Part.match?` and `Grammar.match?` fit a part and a grammar to the front of a token list. The parts of
a sequence are fitted one after another, each to the tokens that are left, and none is tried again: an
optional part that fits is taken, and of several choices the first that fits. A match says how many
tokens it takes and what it binds (`Match`); of two bindings of one name the later one counts.
-/

namespace Phrasebook

open Phrasebook.Text

/-- How many tokens a grammar takes, and what it binds them to. -/
structure Match where
  tokenCount : Nat
  arguments : Bindings
  deriving DecidableEq

namespace Match

/-- The match that takes nothing. -/
def empty : Match := ⟨0, .empty⟩

/-- A match followed by one of the tokens behind it. -/
def append (first later : Match) : Match :=
  ⟨first.tokenCount + later.tokenCount, first.arguments.append later.arguments⟩

@[simp] theorem tokenCount_append (first later : Match) :
    (first.append later).tokenCount = first.tokenCount + later.tokenCount := rfl

end Match

/-- Whether a token is the expected one. -/
def tokenFits (caseSensitive : Bool) (expected token : String) : Bool :=
  if caseSensitive then expected = token else foldCase expected = foldCase token

/-- Whether a token list begins with the expected tokens. -/
def tokensFit (caseSensitive : Bool) : (expected tokens : List String) → Bool
  | [], _ => true
  | _ :: _, [] => false
  | word :: expected, token :: tokens =>
    tokenFits caseSensitive word token && tokensFit caseSensitive expected tokens

mutual

/-- Fits a part to the front of a token list. -/
def Part.match? (tokens : List String) : Part → Option Match
  | .literal expected caseSensitive =>
    if tokensFit caseSensitive expected tokens then some ⟨expected.length, .empty⟩ else none
  | .argument name =>
    match tokens with
    | [] => none
    | token :: _ => some ⟨1, Bindings.empty.insert name token⟩
  | .optional body => some ((Grammar.match? tokens body).getD .empty)
  | .choices alternatives => Grammar.firstMatch? tokens alternatives

/-- Fits the parts of a grammar to the front of a token list, one after another. -/
def Grammar.match? (tokens : List String) : List Part → Option Match
  | [] => some .empty
  | part :: parts =>
    match part.match? tokens with
    | none => none
    | some first =>
      match Grammar.match? (tokens.drop first.tokenCount) parts with
      | none => none
      | some later => some (first.append later)

/-- The match of the first alternative that fits. -/
def Grammar.firstMatch? (tokens : List String) : List (List Part) → Option Match
  | [] => none
  | alternative :: alternatives =>
    match Grammar.match? tokens alternative with
    | some found => some found
    | none => Grammar.firstMatch? tokens alternatives

end

end Phrasebook
