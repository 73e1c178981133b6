import Phrasebook.Grammar.Basic

/-!
# Format strings of grammars

How a grammar is written down: literals as their tokens, arguments in braces, optional parts in round
brackets and choices in square brackets with commas between them. `Grammar.format` writes a grammar
and `Part.format` one part. A comma in a literal that stands directly in a choice is written behind a
backslash, since a bare one would end the choice. Whether a literal distinguishes case is not written.
-/

namespace Phrasebook

/-- Puts a backslash in front of the commas that have none. -/
def escapeCommas : List Char → List Char
  | [] => []
  | [c] => if c = ',' then ['\\', c] else [c]
  | c :: d :: text =>
    if c = '\\' then c :: d :: escapeCommas text
    else if c = ',' then '\\' :: c :: escapeCommas (d :: text)
    else c :: escapeCommas (d :: text)

/-- The tokens of a literal with blanks between them. -/
def tokensText (inChoice : Bool) (tokens : List String) : List Char :=
  List.intercalate [' '] <| tokens.map fun token =>
    if inChoice then escapeCommas token.toList else token.toList

mutual

/-- The text of a part. Directly in a choice, the commas of a literal are escaped. -/
def Part.text (inChoice : Bool) : Part → List Char
  | .literal tokens _ => tokensText inChoice tokens
  | .argument name => '{' :: name.toList ++ ['}']
  | .optional body => '(' :: Grammar.text false body ++ [')']
  | .choices alternatives => '[' :: Grammar.alternativesText alternatives ++ [']']

/-- The text of a grammar: its parts with blanks between them. -/
def Grammar.text (inChoice : Bool) : List Part → List Char
  | [] => []
  | [part] => part.text inChoice
  | part :: parts => part.text inChoice ++ ' ' :: Grammar.text inChoice parts

/-- The text of alternatives, with commas between them. -/
def Grammar.alternativesText : List (List Part) → List Char
  | [] => []
  | [alternative] => Grammar.text true alternative
  | alternative :: alternatives =>
    Grammar.text true alternative ++ ',' :: ' ' :: Grammar.alternativesText alternatives

end

theorem Grammar.text_cons_cons (inChoice : Bool) (part next : Part) (parts : List Part) :
    Grammar.text inChoice (part :: next :: parts) =
      part.text inChoice ++ ' ' :: Grammar.text inChoice (next :: parts) := by
  rw [Grammar.text]
  exact List.cons_ne_nil next parts

theorem Grammar.alternativesText_cons_cons (alternative next : List Part)
    (alternatives : List (List Part)) :
    Grammar.alternativesText (alternative :: next :: alternatives) =
      Grammar.text true alternative ++ ',' :: ' ' :: Grammar.alternativesText (next :: alternatives) := by
  rw [Grammar.alternativesText]
  exact List.cons_ne_nil next alternatives

/-- The format string of a part. -/
def Part.format (part : Part) : String :=
  String.ofList (part.text false)

/-- The format string of a grammar. -/
def Grammar.format (grammar : Grammar) : String :=
  String.ofList (Grammar.text false grammar)

end Phrasebook
