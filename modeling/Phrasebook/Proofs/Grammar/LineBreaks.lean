import Phrasebook.Proofs.Grammar.Compiles

/-!
# Line breaks that are lost

The only tokens of a format string that are not neat end in front of a line break, which belongs to no
token. So a grammar with such a token is written down with fewer line breaks than it was read with, and
no grammar with more: `kept_of_compiles`.
-/

namespace Phrasebook

open Phrasebook.Text Phrasebook.Value Phrasebook.Input

/-! ## Line breaks -/

/-- The number of line breaks in a text. -/
def lineBreaks (text : List Char) : Nat :=
  text.countP isLineBreak

theorem lineBreaks_append (front back : List Char) :
    lineBreaks (front ++ back) = lineBreaks front + lineBreaks back :=
  List.countP_append

theorem lineBreaks_cons_le (c : Char) (text : List Char) :
    lineBreaks text ≤ lineBreaks (c :: text) := by
  rw [lineBreaks, lineBreaks, List.countP_cons]
  exact Nat.le_add_right _ _

/-- Tokens hold no more line breaks than their text. -/
theorem lineBreaks_tokensOf_le {text : List Char} {found : List Lexeme} (h : Lexes text found) :
    lineBreaks (tokensOf found).flatten ≤ lineBreaks text := by
  induction h with
  | nil => exact Nat.le_refl 0
  | separator _ _ ih => exact Nat.le_trans ih (lineBreaks_cons_le _ _)
  | blank _ _ _ ih => exact Nat.le_trans ih (lineBreaks_cons_le _ _)
  | token _ _ _ _ ih =>
    rw [tokensOf, List.flatten_cons, lineBreaks_append, lineBreaks_append]
    exact Nat.add_le_add_left ih _

/-- A line break in front belongs to no token. -/
theorem lineBreaks_tokensOf_lt {c : Char} {text : List Char} {found : List Lexeme}
    (h : Lexes (c :: text) found) (breaks : isLineBreak c = true) :
    lineBreaks (tokensOf found).flatten < lineBreaks (c :: text) := by
  have whole := h.lexemes_eq
  have separator : separates c = true := by rw [separates, breaks, Bool.true_or]
  rw [lexemes_separator separator] at whole
  cases read : lexemes text with
  | error fault => rw [read] at whole; cases whole
  | ok more =>
    rw [read] at whole
    cases whole
    have less := lineBreaks_tokensOf_le (lexes_of_lexemes read)
    have counted : lineBreaks (c :: text) = lineBreaks text + 1 := List.countP_cons_of_pos breaks
    rw [counted]
    exact Nat.lt_succ_of_le less

theorem neat_of_word {word : List Char} (h : Word word) : Neat word := by
  induction h with
  | nil => exact neat_nil
  | @plain c word plain stays _ ih =>
    cases word with
    | nil =>
      simp only [endsWord, Bool.or_eq_false_iff] at stays
      exact neat_bare .nil plain stays.2
    | cons d word => exact Neat.append (.bare plain .nil) ih (List.cons_ne_nil d word)
  | @escape c word _ ih =>
    cases word with
    | nil => exact neat_escaped .nil c
    | cons d word => exact Neat.append (.escaped .nil) ih (List.cons_ne_nil d word)

/-- A token with an end of its own is neat. -/
theorem neat_of_closed {token rest : List Char} (h : Closed token) (whole : Paired (token ++ rest)) :
    Neat token := by
  rcases h with word | ⟨c, closes, last⟩
  · exact neat_of_word word
  · have ends : closing c ≠ '\\' ∧ isBlank (closing c) = false := by
      simp only [closesItself, Bool.or_eq_true, decide_eq_true_eq] at closes
      rcases closes with ((rfl | rfl) | rfl) | rfl <;> decide
    exact neat_of_getLast? (whole.of_getLast? last ends.1) last ends.2

/-- In a neat text, the only tokens that are not neat have a line break behind them, so a token is lost
with a line break. -/
theorem neat_of_lexes {text : List Char} {found : List Lexeme} (h : Lexes text found)
    (neat : Neat text) (all : lineBreaks text ≤ lineBreaks (tokensOf found).flatten) :
    ∀ token ∈ tokensOf found, Neat token := by
  induction h with
  | nil => intro token member; cases member
  | @separator c text more separates _ ih =>
    have isFront : Paired [c] := .bare (plain_of_separates separates) .nil
    exact ih (neat.of_append isFront) (Nat.le_trans (lineBreaks_cons_le c text) all)
  | @blank c text more blank _ _ ih =>
    have isFront : Paired [c] := .bare (plain_of_isBlank blank) .nil
    exact ih (neat.of_append isFront) (Nat.le_trans (lineBreaks_cons_le c text) all)
  | @token before token text more stands reaches stops lexes ih =>
    rw [tokensOf, List.flatten_cons, lineBreaks_append, lineBreaks_append] at all
    have later : lineBreaks text ≤ lineBreaks (tokensOf more).flatten := Nat.le_of_add_le_add_left all
    have isToken : Neat token := by
      rcases reaches with ⟨-, closed⟩ | -
      · exact neat_of_closed closed neat.1
      · cases text with
        | nil =>
          rw [List.append_nil] at neat
          exact neat
        | cons c text =>
          have less := lineBreaks_tokensOf_lt lexes (stops c rfl)
          exact absurd later (Nat.not_le_of_lt less)
    intro other member
    rcases List.mem_cons.1 member with rfl | inMore
    · exact isToken
    · exact ih (neat.of_append isToken.1) later other inMore

/-! ## Literals -/

theorem lineBreaks_spaced (call : List (List Char)) :
    lineBreaks ([' '].intercalate call) = lineBreaks call.flatten := by
  induction call with
  | nil => rfl
  | cons token call ih =>
    cases call with
    | nil => rw [List.intercalate_singleton, List.flatten_singleton]
    | cons next more =>
      have blank : lineBreaks [' '] = 0 := by decide
      have divide : (token :: next :: more).flatten = token ++ (next :: more).flatten := rfl
      rw [List.intercalate_cons_cons, lineBreaks_append, lineBreaks_append, ih, blank, divide,
        lineBreaks_append, Nat.add_zero]

theorem lineBreaks_escapeCommas (text : List Char) :
    lineBreaks (escapeCommas text) = lineBreaks text := by
  have backslash : isLineBreak '\\' = false := by decide
  fun_induction escapeCommas text with
  | case1 => rfl
  | case2 => simp [lineBreaks, List.countP_cons, backslash]
  | case3 => rfl
  | case4 d text ih => simpa [lineBreaks, List.countP_cons] using ih
  | case5 d text _ ih => simpa [lineBreaks, List.countP_cons, backslash] using ih
  | case6 c d text _ _ ih => simpa [lineBreaks, List.countP_cons] using ih

theorem lineBreaks_tokensText (inChoice : Bool) (tokens : List String) :
    lineBreaks (tokensText inChoice tokens) = lineBreaks (tokens.map String.toList).flatten := by
  rw [tokensText, lineBreaks_spaced]
  induction tokens with
  | nil => rfl
  | cons token tokens ih =>
    rw [List.map_cons, List.flatten_cons, lineBreaks_append, ih, List.map_cons, List.flatten_cons,
      lineBreaks_append]
    cases inChoice with
    | false => rfl
    | true => rw [if_pos rfl, lineBreaks_escapeCommas]

theorem lineBreaks_trimUnescaped_le {text : List Char} (h : Paired text) :
    lineBreaks (trimUnescaped text) ≤ lineBreaks text := by
  obtain ⟨front, back, equal, -⟩ := exists_trimUnescaped h
  rw [congrArg lineBreaks equal, lineBreaks_append, lineBreaks_append]
  omega

/-- Some of the line breaks that were read are written again, and all of them only if the words are
neat. -/
structure Kept (read written : Nat) (words : List String) : Prop where
  le : written ≤ read
  neat : read ≤ written → ∀ word ∈ words, Neat word.toList

theorem Kept.mono {read read' written : Nat} {words : List String} (h : Kept read written words)
    (le : read ≤ read') : Kept read' written words :=
  ⟨Nat.le_trans h.le le, fun all => h.neat (Nat.le_trans le all)⟩

theorem Kept.add {read read' written written' : Nat} {words words' : List String}
    (h : Kept read written words) (h' : Kept read' written' words') :
    Kept (read + read') (written + written') (words ++ words') := by
  have le := h.le
  have le' := h'.le
  refine ⟨Nat.add_le_add le le', fun all word member => ?_⟩
  rcases List.mem_append.1 member with inFirst | inSecond
  · exact h.neat (by omega) word inFirst
  · exact h'.neat (by omega) word inSecond

/-- A literal has no more line breaks than its text, and fewer if some token is not neat. -/
theorem kept_literalParts {front : List Char} {parts : Grammar} (paired : Paired front)
    (h : literalParts front = .ok parts) (inChoice : Bool) :
    Kept (lineBreaks front) (lineBreaks (Grammar.text inChoice parts))
      (Grammar.literalWords parts) := by
  obtain ⟨-, -, -, -, -, -, neat⟩ := exists_trimUnescaped paired
  have less := lineBreaks_trimUnescaped_le paired
  rcases cases_of_literalParts h with ⟨empty, rfl⟩ | ⟨tokens, single, rfl⟩
  · exact ⟨Nat.zero_le _, fun _ word member => by cases member⟩
  · obtain ⟨⟨found, lexes, tokens_eq⟩, -, -⟩ := exists_lexes_of_tokenizeSingle single
    have written : lineBreaks (Grammar.text inChoice [.literal tokens false]) =
        lineBreaks (tokensOf found).flatten := by
      rw [tokens_eq]
      exact lineBreaks_tokensText inChoice tokens
    rw [written]
    refine ⟨Nat.le_trans (lineBreaks_tokensOf_le lexes) less, fun all word member => ?_⟩
    have isNeat := neat_of_lexes lexes neat (Nat.le_trans less all)
    rw [tokens_eq] at isNeat
    refine isNeat word.toList (List.mem_map_of_mem ?_)
    simpa [Grammar.literalWords, Part.literalWords] using member

/-! ## Brackets -/

theorem lineBreaks_cons_of_neg {c : Char} (h : isLineBreak c = false) (text : List Char) :
    lineBreaks (c :: text) = lineBreaks text :=
  List.countP_cons_of_neg (by simp [h])

theorem lineBreaks_text_cons (inChoice : Bool) (part : Part) (parts : Grammar) :
    lineBreaks (Grammar.text inChoice (part :: parts)) =
      lineBreaks (part.text inChoice) + lineBreaks (Grammar.text inChoice parts) := by
  cases parts with
  | nil =>
    rw [Grammar.text, Grammar.text]
    rfl
  | cons next parts =>
    rw [Grammar.text_cons_cons, lineBreaks_append, lineBreaks_cons_of_neg (by decide)]

theorem lineBreaks_text_append (inChoice : Bool) (parts more : Grammar) :
    lineBreaks (Grammar.text inChoice (parts ++ more)) =
      lineBreaks (Grammar.text inChoice parts) + lineBreaks (Grammar.text inChoice more) := by
  induction parts with
  | nil => exact (Nat.zero_add _).symm
  | cons part parts ih =>
    rw [List.cons_append, lineBreaks_text_cons, lineBreaks_text_cons, ih, Nat.add_assoc]

theorem Matching.lineBreaks_eq {opening closing : Char} (h : Matching opening closing)
    (contents rest : List Char) :
    lineBreaks (opening :: (contents ++ closing :: rest)) =
      lineBreaks contents + lineBreaks rest := by
  have stays : isLineBreak opening = false ∧ isLineBreak closing = false := by
    cases h <;> decide
  rw [lineBreaks_cons_of_neg stays.1, lineBreaks_append, lineBreaks_cons_of_neg stays.2]

/-- The line breaks around a bracket are counted apart from those inside. -/
theorem kept_bracketText {opening closing : Char} (matching : Matching opening closing)
    {front contents rest inner : List Char} {parts more : Grammar} {part : Part} {inChoice : Bool}
    (inFront : Kept (lineBreaks front) (lineBreaks (Grammar.text inChoice parts))
      (Grammar.literalWords parts))
    (spelled : part.text inChoice = opening :: (inner ++ [closing]))
    (inside : Kept (lineBreaks contents) (lineBreaks inner) part.literalWords)
    (behind : Kept (lineBreaks rest) (lineBreaks (Grammar.text inChoice more))
      (Grammar.literalWords more)) :
    Kept (lineBreaks (bracketText front opening contents closing rest))
      (lineBreaks (Grammar.text inChoice (parts ++ part :: more)))
      (Grammar.literalWords (parts ++ part :: more)) := by
  have own : lineBreaks (part.text inChoice) = lineBreaks inner := by
    rw [spelled, matching.lineBreaks_eq]
    rfl
  rw [bracketText, lineBreaks_append, matching.lineBreaks_eq, lineBreaks_text_append,
    lineBreaks_text_cons, own, literalWords_append, Grammar.literalWords]
  exact inFront.add (inside.add behind)

/-! ## Choices -/

theorem lineBreaks_escapeOutside {text : List Char} (h : Paired text) (depth : Nat) :
    lineBreaks (escapeOutside depth text) = lineBreaks text := by
  have backslash : isLineBreak '\\' = false := by decide
  induction h generalizing depth with
  | nil => rfl
  | @bare c text plain _ ih =>
    by_cases outside : c = ',' ∧ depth = 0
    · obtain ⟨rfl, rfl⟩ := outside
      have comma : isLineBreak ',' = false := by decide
      rw [escapeOutside_comma, lineBreaks_cons_of_neg backslash, lineBreaks_cons_of_neg comma,
        lineBreaks_cons_of_neg comma, ih]
    · rw [escapeOutside_bare plain outside, lineBreaks, lineBreaks, List.countP_cons,
        List.countP_cons, ← lineBreaks, ← lineBreaks, ih]
  | @escaped c text _ ih =>
    rw [escapeOutside_escaped, lineBreaks_cons_of_neg backslash, lineBreaks_cons_of_neg backslash,
      lineBreaks, lineBreaks, List.countP_cons, List.countP_cons, ← lineBreaks, ← lineBreaks, ih]

theorem lineBreaks_joinPieces {depth : Nat} {pieces : List (List Char)} (h : Pieces depth pieces) :
    lineBreaks (joinPieces depth pieces) = lineBreaks pieces.flatten := by
  induction h with
  | last paired _ => rw [joinPieces, lineBreaks_escapeOutside paired, List.flatten_singleton]
  | cons paired _ _ _ ih =>
    rw [joinPieces, lineBreaks_append, lineBreaks_escapeOutside paired,
      lineBreaks_cons_of_neg (by decide), ih, ← lineBreaks_append]
    rfl

theorem lineBreaks_map_trimUnescaped_le {pieces : List (List Char)}
    (each : ∀ piece ∈ pieces, Paired piece) :
    lineBreaks (pieces.map trimUnescaped).flatten ≤ lineBreaks pieces.flatten := by
  induction pieces with
  | nil => exact Nat.le_refl 0
  | cons piece pieces ih =>
    rw [List.map_cons, List.flatten_cons, List.flatten_cons, lineBreaks_append, lineBreaks_append]
    exact Nat.add_le_add (lineBreaks_trimUnescaped_le (each piece List.mem_cons_self))
      (ih fun other member => each other (List.mem_cons_of_mem piece member))

/-- The texts of alternatives hold no more line breaks than the choice. -/
theorem lineBreaks_alternativeTexts_le {contents : List Char} (paired : Paired contents) :
    lineBreaks (alternativeTexts contents).flatten ≤ lineBreaks contents := by
  obtain ⟨isPieces, joined⟩ := pieces_splitChoices paired 0
  have count := lineBreaks_joinPieces isPieces
  rw [joined] at count
  rw [count, alternativeTexts, List.flatten_filter_not_isEmpty]
  exact lineBreaks_map_trimUnescaped_le isPieces.paired

theorem kept_alternatives {texts : List (List Char)} {alternatives : List Grammar}
    (h : List.Forall₂ (fun text alternative => Kept (lineBreaks text)
      (lineBreaks (Grammar.text true alternative)) (Grammar.literalWords alternative)) texts
      alternatives) :
    Kept (lineBreaks texts.flatten) (lineBreaks (Grammar.alternativesText alternatives))
      (Grammar.alternativeWords alternatives) := by
  induction h with
  | nil => exact ⟨Nat.le_refl 0, fun _ word member => by cases member⟩
  | @cons text alternative texts alternatives first _ ih =>
    have written : lineBreaks (Grammar.alternativesText (alternative :: alternatives)) =
        lineBreaks (Grammar.text true alternative) +
          lineBreaks (Grammar.alternativesText alternatives) := by
      cases alternatives with
      | nil =>
        rw [Grammar.alternativesText, Grammar.alternativesText]
        rfl
      | cons next alternatives =>
        rw [Grammar.alternativesText_cons_cons, lineBreaks_append, lineBreaks_cons_of_neg (by decide),
          lineBreaks_cons_of_neg (by decide)]
    rw [List.flatten_cons, lineBreaks_append, written, Grammar.alternativeWords]
    exact first.add ih

/-! ## Whole grammars -/

/-- **Line breaks.** A grammar is written down with no more line breaks than its text has, and with fewer
if some token is not neat. -/
theorem kept_of_compiles {text : List Char} {grammar : Grammar} (h : Compiles text grammar)
    (inChoice : Bool) :
    Kept (lineBreaks text) (lineBreaks (Grammar.text inChoice grammar))
      (Grammar.literalWords grammar) := by
  induction h generalizing inChoice with
  | literal plain literal => exact kept_literalParts plain.1 literal inChoice
  | optional plain literal _ _ _ _ ih ih' =>
    have inFront := kept_literalParts plain.1 literal inChoice
    refine kept_bracketText .round inFront (by rw [Part.text]; rfl) ?_ (ih' inChoice)
    rw [Part.literalWords]
    exact ih false
  | argument plain literal _ _ _ _ ih =>
    have inFront := kept_literalParts plain.1 literal inChoice
    refine kept_bracketText .brace inFront (by rw [Part.text]; rfl) ?_ (ih inChoice)
    rw [Part.literalWords, String.toList_ofList]
    exact ⟨Nat.le_refl _, fun _ word member => by cases member⟩
  | choices plain literal encloses length _ _ _ ih ih' =>
    have inFront := kept_literalParts plain.1 literal inChoice
    refine kept_bracketText .square inFront (by rw [Part.text]; rfl) ?_ (ih' inChoice)
    rw [Part.literalWords]
    have all := List.forall₂_iff_zip.2 ⟨length, fun member => ih _ _ member true⟩
    exact (kept_alternatives all).mono (lineBreaks_alternativeTexts_le encloses.1)

end Phrasebook
