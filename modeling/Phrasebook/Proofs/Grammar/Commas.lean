import Phrasebook.Proofs.Grammar.Reprint

/-!
# Commas of a grammar that is written down

`Grammar.text` and `Grammar.safeText` write a grammar alike but for backslashes in front of commas:
`Grammar.commaAlike`. Such texts have the same number of commas, and if their marks are the same, they are
the same.
-/

namespace Phrasebook

open Phrasebook.Text

/-! ## Backslashes in front of commas -/

/-- Texts that differ only in backslashes in front of commas. -/
inductive CommaAlike : List Char → List Char → Prop
  | nil : CommaAlike [] []
  | bare {c : Char} {text text' : List Char} :
    c ≠ '\\' → CommaAlike text text' → CommaAlike (c :: text) (c :: text')
  | escaped {c : Char} {text text' : List Char} :
    CommaAlike text text' → CommaAlike ('\\' :: c :: text) ('\\' :: c :: text')
  | left {text text' : List Char} :
    CommaAlike text text' → CommaAlike ('\\' :: ',' :: text) (',' :: text')
  | right {text text' : List Char} :
    CommaAlike text text' → CommaAlike (',' :: text) ('\\' :: ',' :: text')

theorem Paired.commaAlike {text : List Char} (h : Paired text) : CommaAlike text text := by
  induction h with
  | nil => exact .nil
  | bare plain _ ih => exact .bare plain ih
  | escaped _ ih => exact .escaped ih

theorem CommaAlike.append {front front' back back' : List Char} (h : CommaAlike front front')
    (h' : CommaAlike back back') : CommaAlike (front ++ back) (front' ++ back') := by
  induction h with
  | nil => exact h'
  | bare plain _ ih => exact .bare plain ih
  | escaped _ ih => exact .escaped ih
  | left _ ih => exact .left ih
  | right _ ih => exact .right ih

theorem escapeCommas_bare {c : Char} (plain : c ≠ '\\') (noComma : c ≠ ',') (text : List Char) :
    escapeCommas (c :: text) = c :: escapeCommas text := by
  cases text with
  | nil => simp only [escapeCommas, if_neg noComma]
  | cons d text => rw [escapeCommas, if_neg plain, if_neg noComma]

theorem escapeCommas_comma (text : List Char) :
    escapeCommas (',' :: text) = '\\' :: ',' :: escapeCommas text := by
  cases text with
  | nil => rfl
  | cons d text => rw [escapeCommas, if_neg (by decide), if_pos rfl]

theorem escapeCommas_escaped (c : Char) (text : List Char) :
    escapeCommas ('\\' :: c :: text) = '\\' :: c :: escapeCommas text := by
  rw [escapeCommas, if_pos rfl]

theorem Paired.commaAlike_escapeCommas {text : List Char} (h : Paired text) :
    CommaAlike (escapeCommas text) text := by
  induction h with
  | nil => exact .nil
  | @bare c text plain _ ih =>
    by_cases comma : c = ','
    · subst comma
      rw [escapeCommas_comma]
      exact .left ih
    · rw [escapeCommas_bare plain comma]
      exact .bare plain ih
  | escaped _ ih =>
    rw [escapeCommas_escaped]
    exact .escaped ih

theorem CommaAlike.escapeOutside {text text' : List Char} (h : CommaAlike text text') (depth : Nat) :
    CommaAlike text (escapeOutside depth text') := by
  induction h generalizing depth with
  | nil => exact .nil
  | @bare c text text' plain _ ih =>
    by_cases outside : c = ',' ∧ depth = 0
    · obtain ⟨rfl, rfl⟩ := outside
      rw [escapeOutside_comma]
      exact .right (ih 0)
    · rw [escapeOutside_bare plain outside]
      exact .bare plain (ih _)
  | escaped _ ih =>
    rw [escapeOutside_escaped]
    exact .escaped (ih depth)
  | @left text text' _ ih =>
    by_cases outside : depth = 0
    · subst outside
      rw [escapeOutside_comma]
      exact .escaped (ih 0)
    · rw [escapeOutside_bare (by decide) fun ⟨_, same⟩ => outside same]
      exact .left (ih _)
  | right _ ih =>
    rw [escapeOutside_escaped]
    exact .right (ih depth)

theorem commaCount_append (front back : List Mark) :
    commaCount (front ++ back) = commaCount front + commaCount back := by
  induction front with
  | nil => exact (Nat.zero_add _).symm
  | cons mark front ih =>
    cases mark with
    | bracket c => exact ih
    | comma escaped =>
      rw [List.cons_append, commaCount, commaCount, ih]
      omega

/-- Such texts have the same number of commas. -/
theorem CommaAlike.commaCount_eq {text text' : List Char} (h : CommaAlike text text') :
    commaCount (marks text) = commaCount (marks text') := by
  have comma : ',' ≠ '\\' := by decide
  induction h with
  | nil => rfl
  | bare plain _ ih =>
    rw [marks_bare plain, marks_bare plain, commaCount_append, commaCount_append, ih]
  | escaped _ ih =>
    rw [marks_escaped, marks_escaped, commaCount_append, commaCount_append, ih]
  | left _ ih => rw [marks_escaped, marks_bare comma, commaCount_append, commaCount_append, ih]; rfl
  | right _ ih => rw [marks_escaped, marks_bare comma, commaCount_append, commaCount_append, ih]; rfl

/-- With the same marks, they are the same. -/
theorem CommaAlike.eq_of_marks_eq {text text' : List Char} (h : CommaAlike text text')
    (same : marks text = marks text') : text = text' := by
  have comma : ',' ≠ '\\' := by decide
  induction h with
  | nil => rfl
  | bare plain _ ih =>
    rw [marks_bare plain, marks_bare plain, List.append_cancel_left_eq] at same
    rw [ih same]
  | escaped _ ih =>
    rw [marks_escaped, marks_escaped, List.append_cancel_left_eq] at same
    rw [ih same]
  | left _ _ =>
    rw [marks_escaped, marks_bare comma] at same
    cases same
  | right _ _ =>
    rw [marks_escaped, marks_bare comma] at same
    cases same

/-! ## Two texts of one grammar -/

theorem commaAlike_tokensText (inChoice : Bool) {tokens : List String}
    (words : ∀ word ∈ tokens, Paired word.toList) :
    CommaAlike (tokensText inChoice tokens) (tokensText false tokens) := by
  have alike : ∀ token ∈ tokens,
      CommaAlike (if inChoice then escapeCommas token.toList else token.toList) token.toList := by
    intro token member
    cases inChoice with
    | false => exact (words token member).commaAlike
    | true => exact (words token member).commaAlike_escapeCommas
  rw [tokensText, tokensText_false]
  clear words
  induction tokens with
  | nil => exact .nil
  | cons token tokens ih =>
    have first := alike token List.mem_cons_self
    cases tokens with
    | nil =>
      rw [List.map_singleton, List.map_singleton, List.intercalate_singleton,
        List.intercalate_singleton]
      exact first
    | cons next more =>
      have later := ih fun other member => alike other (List.mem_cons_of_mem token member)
      rw [List.map_cons, List.map_cons, List.map_cons, List.map_cons, List.intercalate_cons_cons,
        List.intercalate_cons_cons]
      exact (first.append (.bare (by decide) .nil)).append later

mutual

theorem Part.commaAlike (part : Part) (inChoice : Bool)
    (words : ∀ word ∈ part.literalWords, Paired word.toList)
    (names : ∀ name ∈ part.argumentNames, Paired name.toList) :
    CommaAlike (part.text inChoice) part.safeText := by
  match part with
  | .literal tokens caseSensitive =>
    rw [Part.literalWords] at words
    rw [Part.text, Part.safeText]
    exact commaAlike_tokensText inChoice words
  | .argument name =>
    have isName : Paired name.toList := names name (by simp [Part.argumentNames])
    rw [Part.text, Part.safeText]
    exact .bare (by decide) (isName.append (.bare (by decide) .nil)).commaAlike
  | .optional body =>
    rw [Part.literalWords] at words
    rw [Part.argumentNames] at names
    rw [Part.text, Part.safeText]
    have inside := Grammar.commaAlike body false words names
    exact .bare (by decide) (inside.append (.bare (by decide) .nil))
  | .choices alternatives =>
    rw [Part.literalWords] at words
    rw [Part.argumentNames] at names
    rw [Part.text, Part.safeText]
    have inside := Grammar.commaAlike_alternatives alternatives words names
    exact .bare (by decide) (inside.append (.bare (by decide) .nil))

/-- The texts of a grammar differ only in backslashes in front of commas. -/
theorem Grammar.commaAlike (grammar : List Part) (inChoice : Bool)
    (words : ∀ word ∈ Grammar.literalWords grammar, Paired word.toList)
    (names : ∀ name ∈ Grammar.argumentNames grammar, Paired name.toList) :
    CommaAlike (Grammar.text inChoice grammar) (Grammar.safeText grammar) := by
  match grammar with
  | [] =>
    rw [Grammar.text, Grammar.safeText]
    exact .nil
  | part :: parts =>
    rw [Grammar.literalWords, List.forall_mem_append] at words
    rw [Grammar.argumentNames, List.forall_mem_append] at names
    have first := Part.commaAlike part inChoice words.1 names.1
    have later := Grammar.commaAlike parts inChoice words.2 names.2
    cases parts with
    | nil =>
      rw [Grammar.text, Grammar.safeText]
      exact first
    | cons next parts =>
      rw [Grammar.text_cons_cons, Grammar.safeText_cons_cons]
      exact first.append (.bare (by decide) later)

theorem Grammar.commaAlike_alternatives (alternatives : List (List Part))
    (words : ∀ word ∈ Grammar.alternativeWords alternatives, Paired word.toList)
    (names : ∀ name ∈ Grammar.alternativeNames alternatives, Paired name.toList) :
    CommaAlike (Grammar.alternativesText alternatives) (Grammar.safeAlternatives alternatives) := by
  match alternatives with
  | [] =>
    rw [Grammar.alternativesText, Grammar.safeAlternatives]
    exact .nil
  | alternative :: alternatives =>
    rw [Grammar.alternativeWords, List.forall_mem_append] at words
    rw [Grammar.alternativeNames, List.forall_mem_append] at names
    have first := (Grammar.commaAlike alternative true words.1 names.1).escapeOutside 0
    have later := Grammar.commaAlike_alternatives alternatives words.2 names.2
    cases alternatives with
    | nil =>
      rw [Grammar.alternativesText, Grammar.safeAlternatives]
      exact first
    | cons next alternatives =>
      rw [Grammar.alternativesText_cons_cons, Grammar.safeAlternatives_cons_cons]
      exact first.append (.bare (by decide) (.bare (by decide) later))

end

end Phrasebook
