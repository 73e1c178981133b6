import Phrasebook.Value.Reader

/-!
# Lexemes of an input

An input is a run of tokens and separators with blanks between them. A token is either a plain word
or the text of a structured value, and keeps its spelling: quotes and escapes are decoded when an
argument is asked for. `readWord` reads a word and `lexemes` a whole text.

A value begins at a quote, a bracket, a colon or the beginning of a comment, so that a comment belongs
to the token of the value behind it, also across lines.
-/

namespace Phrasebook.Input

open Phrasebook.Text Phrasebook.Value

/-- What a text consists of, blanks left out. -/
inductive Lexeme where
  | token (text : List Char)
  | separator
  deriving DecidableEq, Repr

/-- Why a text cannot be divided into lexemes. -/
inductive LexemeCause where
  | incompleteEscape
  | malformedValue (cause : SyntaxCause)
  deriving DecidableEq, Repr

/-- A cause with the text at the beginning of the lexeme that could not be read. -/
structure LexemeFault where
  cause : LexemeCause
  remaining : List Char
  deriving DecidableEq, Repr

/-- The characters at which a structured value begins. -/
def startsValue (c : Char) : Bool :=
  c = '"' || c = '\'' || c = '{' || c = '}' || c = '[' || c = ']' || c = ':' || c = '/' || c = '#'

/-- The characters that end a call. -/
def separates (c : Char) : Bool :=
  isLineBreak c || c = ';'

/-- The characters that end a plain word, unless they are escaped. -/
def endsWord (c : Char) : Bool :=
  startsValue c || separates c || isBlank c

/-- Reads a plain word: single characters, and backslashes with the character behind them. -/
def readWord : List Char → Except LexemeFault (List Char × List Char)
  | [] => .ok ([], [])
  | [c] =>
    if c = '\\' then .error ⟨.incompleteEscape, [c]⟩
    else if endsWord c then .ok ([], [c])
    else .ok ([c], [])
  | c :: d :: text =>
    if c = '\\' then
      match readWord text with
      | .error fault => .error fault
      | .ok (word, rest) => .ok (c :: d :: word, rest)
    else if endsWord c then .ok ([], c :: d :: text)
    else
      match readWord (d :: text) with
      | .error fault => .error fault
      | .ok (word, rest) => .ok (c :: word, rest)

theorem length_le_of_readWord {text : List Char} {result : List Char × List Char}
    (h : readWord text = .ok result) : result.2.length ≤ text.length := by
  fun_induction readWord text generalizing result with
  | case1 =>
    cases h
    exact Nat.le_refl 0
  | case2 => cases h
  | case3 =>
    cases h
    exact Nat.le_refl _
  | case4 =>
    cases h
    exact Nat.zero_le _
  | case5 => cases h
  | case6 =>
    rename_i read ih
    cases h
    have shorter := ih read
    simp only [List.length_cons] at shorter ⊢
    omega
  | case7 =>
    cases h
    exact Nat.le_refl _
  | case8 => cases h
  | case9 =>
    rename_i read ih
    cases h
    have shorter := ih read
    simp only [List.length_cons] at shorter ⊢
    omega

/-- A word takes its first character, unless that one ends words. -/
theorem length_lt_of_readWord {c : Char} {text : List Char} {result : List Char × List Char}
    (starts : endsWord c = false) (h : readWord (c :: text) = .ok result) :
    result.2.length < text.length + 1 := by
  cases text with
  | nil =>
    unfold readWord at h
    split at h
    · cases h
    · rw [starts] at h
      cases h
      exact Nat.zero_lt_one
  | cons d text =>
    unfold readWord at h
    split at h
    · split at h
      · cases h
      · next read =>
        cases h
        have shorter := length_le_of_readWord read
        simp only [List.length_cons] at shorter ⊢
        omega
    · rw [starts] at h
      simp only [Bool.false_eq_true, if_false] at h
      split at h
      · cases h
      · next read =>
        cases h
        have shorter := length_le_of_readWord read
        exact Nat.lt_succ_of_le shorter

/-- The lexemes of a text. -/
def lexemes (text : List Char) : Except LexemeFault (List Lexeme) :=
  match text with
  | [] => .ok []
  | c :: tail =>
    if value : startsValue c then
      match taken : readElement false (c :: tail) with
      | .error fault => .error ⟨.malformedValue fault.cause, c :: tail⟩
      | .ok (_, rest) =>
        have : rest.length < tail.length + 1 := length_lt_of_readElement taken
        match lexemes rest with
        | .error fault => .error fault
        | .ok more => .ok (.token ((c :: tail).take (tail.length + 1 - rest.length)) :: more)
    else if separator : separates c then
      match lexemes tail with
      | .error fault => .error fault
      | .ok more => .ok (.separator :: more)
    else if blank : isBlank c then lexemes tail
    else
      match word : readWord (c :: tail) with
      | .error fault => .error fault
      | .ok (token, rest) =>
        have : rest.length < tail.length + 1 :=
          length_lt_of_readWord (by simp [endsWord, value, separator, blank]) word
        match lexemes rest with
        | .error fault => .error fault
        | .ok more => .ok (.token token :: more)
termination_by text.length

theorem lexemes_nil : lexemes [] = .ok [] := by
  rw [lexemes]

/-- The rule for a text, by its first character. -/
theorem lexemes_cons (c : Char) (tail : List Char) :
    lexemes (c :: tail) =
      if startsValue c then
        match readElement false (c :: tail) with
        | .error fault => .error ⟨.malformedValue fault.cause, c :: tail⟩
        | .ok (_, rest) =>
          match lexemes rest with
          | .error fault => .error fault
          | .ok more => .ok (.token ((c :: tail).take (tail.length + 1 - rest.length)) :: more)
      else if separates c then
        match lexemes tail with
        | .error fault => .error fault
        | .ok more => .ok (.separator :: more)
      else if isBlank c then lexemes tail
      else
        match readWord (c :: tail) with
        | .error fault => .error fault
        | .ok (token, rest) =>
          match lexemes rest with
          | .error fault => .error fault
          | .ok more => .ok (.token token :: more) := by
  rw [lexemes]
  by_cases value : startsValue c
  · rw [dif_pos value, if_pos value]
    split
    · next taken => simp only [taken]
    · next taken => simp only [taken]
  · rw [dif_neg value, if_neg value]
    by_cases separator : separates c
    · rw [dif_pos separator, if_pos separator]
    · rw [dif_neg separator, if_neg separator]
      by_cases blank : isBlank c
      · rw [dif_pos blank, if_pos blank]
      · rw [dif_neg blank, if_neg blank]
        split
        · next word => simp only [word]
        · next word => simp only [word]

end Phrasebook.Input
