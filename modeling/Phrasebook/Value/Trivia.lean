import Phrasebook.Text.Blank
import Phrasebook.Value.Fault

/-!
# Blanks and comments

What may stand in front of a value and between the parts of one: blanks, comments from `#` or `//` to
the end of the line, and comments between `/*` and `*/`. `skipTrivia` drops all of it. The only
fault is a comment that is opened and never closed.

`length_le_of_skipTrivia` says that what is left is no longer than the text, and
`isBlank_eq_false_of_skipTrivia` that it does not begin with a blank.
-/

namespace Phrasebook.Value

open Phrasebook.Text

mutual

/-- Drops blanks and comments in front of a text. -/
def skipTrivia : List Char → Except Fault (List Char)
  | [] => .ok []
  | c :: text =>
    if isBlank c then skipTrivia text
    else if c = '#' then skipLineComment text
    else if c = '/' then skipAfterSlash text
    else .ok (c :: text)

/-- Drops the comment that a slash opens together with the text behind the slash. When it opens none,
the slash is not dropped either. -/
def skipAfterSlash : List Char → Except Fault (List Char)
  | [] => .ok ['/']
  | c :: text =>
    if c = '/' then skipLineComment text
    else if c = '*' then skipBlockComment ('/' :: c :: text) ' ' text
    else .ok ('/' :: c :: text)

/-- Drops the rest of a line and what `skipTrivia` drops after it. -/
def skipLineComment : List Char → Except Fault (List Char)
  | [] => .ok []
  | c :: text => if isLineBreak c then skipTrivia text else skipLineComment text

/-- Drops the rest of a comment that began at `opening`, and what `skipTrivia` drops after it. The
character `last` is the one in front of the text; at the beginning of the comment it is a blank, so
that the star of the opening is no part of the closing. -/
def skipBlockComment (opening : List Char) (last : Char) : List Char → Except Fault (List Char)
  | [] => .error ⟨.unterminatedComment, opening⟩
  | c :: text =>
    if last = '*' ∧ c = '/' then skipTrivia text else skipBlockComment opening c text

end

/-- Skipping never lengthens a text. -/
theorem length_le_of_skipTrivia {text rest : List Char} (h : skipTrivia text = .ok rest) :
    rest.length ≤ text.length := by
  revert h
  refine skipTrivia.induct
    (fun text => skipTrivia text = .ok rest → rest.length ≤ text.length)
    (fun text => skipAfterSlash text = .ok rest → rest.length ≤ text.length + 1)
    (fun opening last text => skipBlockComment opening last text = .ok rest →
      rest.length ≤ text.length)
    (fun text => skipLineComment text = .ok rest → rest.length ≤ text.length)
    ?_ ?_ ?_ ?_ ?_ ?_ ?_ ?_ ?_ ?_ ?_ ?_ ?_ ?_ ?_ text
  all_goals grind [skipTrivia, skipAfterSlash, skipLineComment, skipBlockComment]

/-- What is left does not begin with a blank. -/
theorem isBlank_eq_false_of_skipTrivia {text rest : List Char} {c : Char}
    (h : skipTrivia text = .ok (c :: rest)) : isBlank c = false := by
  have slash : isBlank '/' = false := by decide
  revert h
  refine skipTrivia.induct
    (fun text => skipTrivia text = .ok (c :: rest) → isBlank c = false)
    (fun text => skipAfterSlash text = .ok (c :: rest) → isBlank c = false)
    (fun opening last text => skipBlockComment opening last text = .ok (c :: rest) →
      isBlank c = false)
    (fun text => skipLineComment text = .ok (c :: rest) → isBlank c = false)
    ?_ ?_ ?_ ?_ ?_ ?_ ?_ ?_ ?_ ?_ ?_ ?_ ?_ ?_ ?_ text
  all_goals grind [skipTrivia, skipAfterSlash, skipLineComment, skipBlockComment]

end Phrasebook.Value
