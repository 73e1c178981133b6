import Phrasebook.Input.Calls

/-!
# Grammars

A grammar describes the token lists that call a command. It is a sequence of parts: words that must
appear (`literal`), places for one token (`argument`), and the two parts that nest further sequences,
one that may be left out (`optional`) and one that offers several (`choices`).

`Part.literal?` makes a literal from text by the rules for calls, so that a literal has the same
tokens as the input that it is meant for. `Part.argumentNames` lists the names that a part can bind.
-/

namespace Phrasebook

/-- One part of a grammar. -/
inductive Part where
  /-- Tokens that must appear, in either case unless stated otherwise. -/
  | literal (tokens : List String) (caseSensitive : Bool)
  /-- One token, bound to a name. -/
  | argument (name : String)
  /-- A sequence that may be left out as a whole. -/
  | optional (body : List Part)
  /-- Several sequences, of which the first that fits is taken. -/
  | choices (alternatives : List (List Part))
  deriving Repr

/-- A sequence of parts. -/
abbrev Grammar := List Part

/-! ## Equality -/

mutual

/-- Whether two parts are the same. -/
def Part.same : Part → Part → Bool
  | .literal tokens caseSensitive, .literal tokens' caseSensitive' =>
    tokens = tokens' && caseSensitive = caseSensitive'
  | .argument name, .argument name' => name = name'
  | .optional body, .optional body' => Grammar.same body body'
  | .choices alternatives, .choices alternatives' => Grammar.sameAll alternatives alternatives'
  | _, _ => false

/-- Whether two grammars are the same. -/
def Grammar.same : List Part → List Part → Bool
  | [], [] => true
  | part :: parts, part' :: parts' => part.same part' && Grammar.same parts parts'
  | _, _ => false

/-- Whether two lists of alternatives are the same. -/
def Grammar.sameAll : List (List Part) → List (List Part) → Bool
  | [], [] => true
  | grammar :: grammars, grammar' :: grammars' =>
    Grammar.same grammar grammar' && Grammar.sameAll grammars grammars'
  | _, _ => false

end

mutual

theorem Part.same_iff (part part' : Part) : part.same part' = true ↔ part = part' := by
  match part with
  | .literal tokens caseSensitive => cases part' <;> simp [Part.same]
  | .argument name => cases part' <;> simp [Part.same]
  | .optional body =>
    cases part' with
    | optional body' => rw [Part.same, Grammar.same_iff body body', Part.optional.injEq]
    | literal => simp [Part.same]
    | argument => simp [Part.same]
    | choices => simp [Part.same]
  | .choices alternatives =>
    cases part' with
    | choices alternatives' =>
      rw [Part.same, Grammar.sameAll_iff alternatives alternatives', Part.choices.injEq]
    | literal => simp [Part.same]
    | argument => simp [Part.same]
    | optional => simp [Part.same]

theorem Grammar.same_iff (grammar grammar' : List Part) :
    Grammar.same grammar grammar' = true ↔ grammar = grammar' := by
  match grammar with
  | [] => cases grammar' <;> simp [Grammar.same]
  | part :: parts =>
    cases grammar' with
    | nil => simp [Grammar.same]
    | cons part' parts' =>
      rw [Grammar.same, Bool.and_eq_true, Part.same_iff part part', Grammar.same_iff parts parts',
        List.cons.injEq]

theorem Grammar.sameAll_iff (grammars grammars' : List (List Part)) :
    Grammar.sameAll grammars grammars' = true ↔ grammars = grammars' := by
  match grammars with
  | [] => cases grammars' <;> simp [Grammar.sameAll]
  | grammar :: grammars =>
    cases grammars' with
    | nil => simp [Grammar.sameAll]
    | cons grammar' grammars' =>
      rw [Grammar.sameAll, Bool.and_eq_true, Grammar.same_iff grammar grammar',
        Grammar.sameAll_iff grammars grammars', List.cons.injEq]

end

instance : DecidableEq Part := fun part part' =>
  decidable_of_iff (part.same part' = true) (Part.same_iff part part')

/-! ## Names and literals -/

mutual

/-- The names that a part can bind, in the order in which they are written. -/
def Part.argumentNames : Part → List String
  | .literal _ _ => []
  | .argument name => [name]
  | .optional body => Grammar.argumentNames body
  | .choices alternatives => Grammar.alternativeNames alternatives

/-- The names that a grammar can bind. -/
def Grammar.argumentNames : List Part → List String
  | [] => []
  | part :: parts => part.argumentNames ++ Grammar.argumentNames parts

/-- The names that alternatives can bind. -/
def Grammar.alternativeNames : List (List Part) → List String
  | [] => []
  | alternative :: alternatives =>
    Grammar.argumentNames alternative ++ Grammar.alternativeNames alternatives

end

open Phrasebook.Input in
/-- A literal, whose tokens are those of the text read as a single call. -/
def Part.literal? (text : String) (caseSensitive : Bool) : Except InputFault Part :=
  match tokenizeSingle text with
  | .error fault => .error fault
  | .ok tokens => .ok (.literal tokens caseSensitive)

end Phrasebook
