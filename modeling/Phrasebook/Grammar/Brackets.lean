import Phrasebook.Text.Blank

/-!
# Brackets, commas and blanks in a format string

The cuts that a compiler makes in the text of a grammar. In all of them a backslash and the character
behind it belong together and mean no bracket, comma or blank.

* `closeBracket?` divides a text at the bracket that closes it, counting brackets of one kind.
* `splitChoices` divides the contents of a choice at the commas outside brackets of any kind.
* `trimUnescaped` takes the blanks away on both sides of a literal, but not an escaped one at the end.
-/

namespace Phrasebook

open Phrasebook.Text

/-! ## Matching brackets -/

/-- Divides a text at the bracket that closes the one in front of it, into the contents and what
follows. `depth` more brackets of the kind have been opened on the way. -/
def closeBracket? (opening closing : Char) (depth : Nat) :
    List Char → Option (List Char × List Char)
  | [] => none
  | [c] => if c = closing ∧ depth = 0 then some ([], []) else none
  | c :: d :: text =>
    if c = '\\' then
      match closeBracket? opening closing depth text with
      | none => none
      | some (contents, rest) => some (c :: d :: contents, rest)
    else if c = closing ∧ depth = 0 then some ([], d :: text)
    else
      let depth := if c = opening then depth + 1 else if c = closing then depth - 1 else depth
      match closeBracket? opening closing depth (d :: text) with
      | none => none
      | some (contents, rest) => some (c :: contents, rest)

/-- Nothing is lost but the closing bracket. -/
theorem length_of_closeBracket? {opening closing : Char} {depth : Nat} {text : List Char}
    {result : List Char × List Char} (h : closeBracket? opening closing depth text = some result) :
    result.1.length + result.2.length + 1 = text.length := by
  fun_induction closeBracket? opening closing depth text generalizing result with
  | case1 => cases h
  | case2 =>
    cases h
    rfl
  | case3 => cases h
  | case4 => cases h
  | case5 depth d text contents rest found ih =>
    cases h
    have shorter := ih found
    simp only [List.length_cons] at shorter ⊢
    omega
  | case6 =>
    cases h
    simp
  | case7 => cases h
  | case8 =>
    rename_i found ih
    cases h
    have shorter := ih found
    simp only [List.length_cons] at shorter ⊢
    omega

/-! ## Choices -/

/-- Puts characters in front of the first piece. -/
def consPiece (front : List Char) : List (List Char) → List (List Char)
  | [] => [front]
  | piece :: pieces => (front ++ piece) :: pieces

/-- Whether a character opens a bracket of any kind. -/
def opensBracket (c : Char) : Bool :=
  c = '(' || c = '{' || c = '['

/-- Whether a character closes a bracket of any kind. -/
def closesBracket (c : Char) : Bool :=
  c = ')' || c = '}' || c = ']'

/-- Divides the contents of a choice at its commas. Inside `depth` brackets a comma divides nothing;
outside of them an escaped comma stands for a comma. -/
def splitChoices (depth : Nat) : List Char → List (List Char)
  | [] => [[]]
  | [c] =>
    if c = ',' ∧ depth = 0 then [[], []] else [[c]]
  | c :: d :: text =>
    if c = '\\' then
      if d = ',' ∧ depth = 0 then consPiece [d] (splitChoices depth text)
      else consPiece [c, d] (splitChoices depth text)
    else if c = ',' ∧ depth = 0 then [] :: splitChoices depth (d :: text)
    else
      let depth :=
        if opensBracket c then depth + 1 else if closesBracket c then depth - 1 else depth
      consPiece [c] (splitChoices depth (d :: text))

/-- The room that pieces take when each is followed by one more character. -/
def totalLength : List (List Char) → Nat
  | [] => 0
  | piece :: pieces => piece.length + 1 + totalLength pieces

theorem totalLength_cons (piece : List Char) (pieces : List (List Char)) :
    totalLength (piece :: pieces) = piece.length + 1 + totalLength pieces :=
  rfl

theorem totalLength_consPiece (front : List Char) {pieces : List (List Char)} (h : pieces ≠ []) :
    totalLength (consPiece front pieces) = front.length + totalLength pieces := by
  cases pieces with
  | nil => exact absurd rfl h
  | cons piece pieces => simp [consPiece, totalLength_cons]; omega

theorem consPiece_ne_nil (front : List Char) (pieces : List (List Char)) :
    consPiece front pieces ≠ [] := by
  cases pieces <;> simp [consPiece]

theorem splitChoices_ne_nil (depth : Nat) (text : List Char) : splitChoices depth text ≠ [] := by
  fun_cases splitChoices depth text with
  | case1 => exact List.cons_ne_nil _ _
  | case2 => exact List.cons_ne_nil _ _
  | case3 => exact List.cons_ne_nil _ _
  | case4 => exact consPiece_ne_nil _ _
  | case5 => exact consPiece_ne_nil _ _
  | case6 => exact List.cons_ne_nil _ _
  | case7 => exact consPiece_ne_nil _ _

/-- The pieces take no more room than the text that they came from. -/
theorem totalLength_splitChoices_le (depth : Nat) (text : List Char) :
    totalLength (splitChoices depth text) ≤ text.length + 1 := by
  fun_induction splitChoices depth text with
  | case1 => exact Nat.le_refl 1
  | case2 => exact Nat.le_refl 2
  | case3 => exact Nat.le_refl 2
  | case4 =>
    rename_i ih
    rw [totalLength_consPiece _ (splitChoices_ne_nil _ _)]
    simp only [List.length_cons, List.length_nil]
    omega
  | case5 =>
    rename_i ih
    rw [totalLength_consPiece _ (splitChoices_ne_nil _ _)]
    simp only [List.length_cons, List.length_nil]
    omega
  | case6 =>
    rename_i ih
    rw [totalLength_cons]
    simp only [List.length_cons, List.length_nil] at ih ⊢
    omega
  | case7 =>
    rename_i ih
    rw [totalLength_consPiece _ (splitChoices_ne_nil _ _)]
    simp only [List.length_cons, List.length_nil] at ih ⊢
    omega

/-! ## Blanks -/

/-- The number of backslashes at the end of a text. -/
def trailingBackslashes (text : List Char) : Nat :=
  (text.reverse.takeWhile (· = '\\')).length

/-- Takes the blanks away on both sides, but leaves a blank at the end when a backslash escapes it: an
odd number of backslashes in front of it does. -/
def trimUnescaped (text : List Char) : List Char :=
  let text := trimStart text
  let trimmed := trimEnd text
  if trailingBackslashes trimmed % 2 = 0 then trimmed else text.take (trimmed.length + 1)

theorem length_trimUnescaped_le (text : List Char) :
    (trimUnescaped text).length ≤ text.length := by
  have start := length_trimStart_le text
  have both := length_trimEnd_le (trimStart text)
  simp only [trimUnescaped]
  split
  · omega
  · rw [List.length_take]
    omega

/-- The texts of the alternatives of a choice: its pieces, trimmed, without the blank ones. -/
def alternativeTexts (contents : List Char) : List (List Char) :=
  ((splitChoices 0 contents).map trimUnescaped).filter fun piece => !piece.isEmpty

theorem totalLength_filter_map_le {f : List Char → List Char} {p : List Char → Bool}
    (h : ∀ piece, (f piece).length ≤ piece.length) (pieces : List (List Char)) :
    totalLength ((pieces.map f).filter p) ≤ totalLength pieces := by
  induction pieces with
  | nil => simp [totalLength]
  | cons piece pieces ih =>
    have := h piece
    rw [List.map_cons, List.filter_cons]
    split <;> simp only [totalLength_cons] <;> omega

theorem totalLength_alternativeTexts_le (contents : List Char) :
    totalLength (alternativeTexts contents) ≤ contents.length + 1 :=
  Nat.le_trans (totalLength_filter_map_le length_trimUnescaped_le _)
    (totalLength_splitChoices_le 0 contents)

end Phrasebook
