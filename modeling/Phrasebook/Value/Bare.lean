import Phrasebook.Text.Blank
import Phrasebook.Number.Nearest
import Phrasebook.Value.Basic
import Phrasebook.Value.Quotation

/-!
# Bare words

Values and member names that are written without quotes. A bare value reaches to the end of its line
and, inside an array or object, at most to the next comma or closing bracket; it is a literal or a
number if it looks like one, and else a string (`bareValue`). A bare name reaches to its colon.
-/

namespace Phrasebook.Value

open Phrasebook.Text Phrasebook.Number

/-! ## Values -/

/-- Whether a bare value ends in front of a character. -/
def endsBare (inside : Bool) (c : Char) : Bool :=
  isLineBreak c || (inside && (c = ',' || c = '}' || c = ']'))

/-- The whole numbers that a bare word can spell; a greater one is read as a double. -/
def isSmallInteger (n : Int) : Bool :=
  -0x8000000000000000 ≤ n && n < 0x8000000000000000

/-- Whether a text begins like a number: with a digit or a point behind any signs. -/
def looksNumeric (text : List Char) : Bool :=
  match text.dropWhile fun c => c = '-' || c = '+' with
  | [] => false
  | c :: _ => c.isDigit || c = '.'

/-- The number that a text spells. -/
def bareNumber? (text : List Char) : Option Value :=
  if looksNumeric text then
    match (readInteger? text).filter isSmallInteger with
    | some n => some (.int n)
    | none => ((Decimal.read? text).bind Decimal.nearest?).map .float
  else
    none

/-- The value of a bare word: a literal, else a number, else the word as a string. -/
def bareValue (text : List Char) : Value :=
  if text = "true".toList then .bool true
  else if text = "false".toList then .bool false
  else if text = "null".toList then .null
  else (bareNumber? text).getD (.string (String.ofList text))

/-- Reads a bare value and trims it. -/
def readBare (inside : Bool) (text : List Char) : Value × List Char :=
  (bareValue (trim (text.takeWhile fun c => !endsBare inside c)),
    text.dropWhile fun c => !endsBare inside c)

/-- A bare value whose first character does not end it takes that character. -/
theorem length_lt_of_readBare {inside : Bool} {c : Char} {tail : List Char}
    (h : endsBare inside c = false) : (readBare inside (c :: tail)).2.length < tail.length + 1 := by
  simp only [readBare, h, Bool.not_false, List.dropWhile_cons_of_pos]
  exact Nat.lt_succ_of_le (List.dropWhile_sublist _).length_le

/-! ## Names -/

/-- Whether a character has no place in a bare name, unless it is escaped. -/
def breaksName (c : Char) : Bool :=
  isLineBreak c || c = '{' || c = '}' || c = '[' || c = ']' || c = ','

/-- Reads the characters in front of a colon, or of the end of the text. -/
def readNameChars (text : List Char) : Except Fault (List Char × List Char) :=
  match text with
  | [] => .ok ([], [])
  | c :: tail =>
    if c = ':' then .ok ([], c :: tail)
    else if breaksName c then .error ⟨.unexpectedInName c, c :: tail⟩
    else if c = '\\' then
      match h : readEscape tail with
      | .error fault => .error fault
      | .ok (meaning, rest) =>
        have : rest.length < tail.length := length_lt_of_readEscape h
        match readNameChars rest with
        | .error fault => .error fault
        | .ok (name, rest) => .ok (meaning :: name, rest)
    else
      match readNameChars tail with
      | .error fault => .error fault
      | .ok (name, rest) => .ok (c :: name, rest)
termination_by text.length

/-- The rule for the characters of a name, by the first of them. -/
theorem readNameChars_cons (c : Char) (tail : List Char) :
    readNameChars (c :: tail) =
      if c = ':' then .ok ([], c :: tail)
      else if breaksName c then .error ⟨.unexpectedInName c, c :: tail⟩
      else if c = '\\' then
        match readEscape tail with
        | .error fault => .error fault
        | .ok (meaning, rest) =>
          match readNameChars rest with
          | .error fault => .error fault
          | .ok (name, rest) => .ok (meaning :: name, rest)
      else
        match readNameChars tail with
        | .error fault => .error fault
        | .ok (name, rest) => .ok (c :: name, rest) := by
  rw [readNameChars]
  by_cases colon : c = ':'
  · rw [if_pos colon, if_pos colon]
  · rw [if_neg colon, if_neg colon]
    by_cases breaks : breaksName c
    · rw [if_pos breaks, if_pos breaks]
    · rw [if_neg breaks, if_neg breaks]
      by_cases escapes : c = '\\'
      · rw [if_pos escapes, if_pos escapes]
        split
        · next read => simp only [read]
        · next read => simp only [read]
      · rw [if_neg escapes, if_neg escapes]

/-- Reads the name of a member: a quotation, or a bare name without the blanks at its end. -/
def readName (text : List Char) : Except Fault (List Char × List Char) :=
  match text with
  | [] => .error ⟨.missingName, []⟩
  | c :: tail =>
    if c = '"' ∨ c = '\'' then readQuoted c text tail
    else
      match readNameChars text with
      | .error fault => .error fault
      | .ok (name, rest) =>
        if (trimEnd name).isEmpty then .error ⟨.missingName, rest⟩ else .ok (trimEnd name, rest)

theorem length_le_of_readNameChars {text : List Char} {result : List Char × List Char}
    (h : readNameChars text = .ok result) : result.2.length ≤ text.length := by
  fun_induction readNameChars text generalizing result with
  | case1 =>
    cases h
    exact Nat.le_refl 0
  | case2 =>
    cases h
    exact Nat.le_refl _
  | case3 => cases h
  | case4 => cases h
  | case5 => cases h
  | case6 =>
    rename_i taken _ _ read _ _ ih
    cases h
    have shorter := ih read
    exact Nat.le_succ_of_le (Nat.le_trans shorter (Nat.le_of_lt taken))
  | case7 => cases h
  | case8 =>
    rename_i read ih
    cases h
    have shorter := ih read
    exact Nat.le_succ_of_le shorter

/-- Reading a name never lengthens the text. -/
theorem length_le_of_readName {text : List Char} {result : List Char × List Char}
    (h : readName text = .ok result) : result.2.length ≤ text.length := by
  cases text with
  | nil => cases h
  | cons c tail =>
    rw [readName] at h
    split at h
    · exact Nat.le_succ_of_le (Nat.le_of_lt (length_lt_of_readQuoted h))
    · split at h
      · cases h
      · next read =>
        have shorter := length_le_of_readNameChars read
        split at h
        · cases h
        · cases h
          exact shorter

end Phrasebook.Value
