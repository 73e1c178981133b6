import Phrasebook.Proofs.Grammar.Names
import Phrasebook.Proofs.Input.Quoting

/-!
# Grammars that can be printed

A grammar that was put together by hand has a format string like one that was compiled. `Grammar.Printable`
says what it may hold so that the format string shows all of it: tokens that the lexer takes for one token,
names that close no bracket, and no part that is empty. In the text of a printable grammar every bracket is
closed by its own (`Grammar.plain_of_printable`), there is nothing to trim (`Grammar.tidy_text`), and a choice
is divided into the alternatives that it was written for (`alternativeTexts_alternativesText`).
-/

namespace Phrasebook

open Phrasebook.Text Phrasebook.Input

/-! ## Printable grammars -/

/-- Tokens that can be written in a format string: plain words, and quotations, without bare brackets. -/
def Writable (token : String) : Prop :=
  ((token ≠ "" ∧ Word token.toList) ∨
    (∃ c ∈ token.toList.head?, isQuote c = true) ∧
      Value.elementLength token = .ok token.length) ∧
  ∀ c, Mark.bracket c ∉ marks token.toList

/-- Names that can be written in braces. -/
def WritableName (name : String) : Prop :=
  trim name.toList ≠ [] ∧ ∀ c ∈ name.toList, isBracket c = false ∧ c ≠ '\\'

mutual

/-- Parts that can be written in a format string. Directly in a choice, no comma of a literal may be
escaped already. -/
def Part.Printable (inChoice : Bool) : Part → Prop
  | .literal tokens caseSensitive =>
    caseSensitive = false ∧ tokens ≠ [] ∧ (∀ token ∈ tokens, Writable token) ∧
      (inChoice = true → ∀ token ∈ tokens, Mark.comma true ∉ marks token.toList)
  | .argument name => WritableName name
  | .optional body => body ≠ [] ∧ Grammar.Printable false body
  | .choices alternatives => alternatives ≠ [] ∧ Grammar.AllPrintable alternatives

/-- Grammars that can be written in a format string. -/
def Grammar.Printable (inChoice : Bool) : List Part → Prop
  | [] => True
  | part :: parts => part.Printable inChoice ∧ Grammar.Printable inChoice parts

/-- Alternatives that can be written in a choice. -/
def Grammar.AllPrintable : List (List Part) → Prop
  | [] => True
  | alternative :: alternatives =>
    (alternative ≠ [] ∧ Grammar.Printable true alternative) ∧ Grammar.AllPrintable alternatives

end

theorem Grammar.allPrintable_iff {alternatives : List (List Part)} :
    Grammar.AllPrintable alternatives ↔
      ∀ alternative ∈ alternatives, alternative ≠ [] ∧ Grammar.Printable true alternative := by
  induction alternatives with
  | nil => simp [Grammar.AllPrintable]
  | cons alternative alternatives ih => rw [Grammar.AllPrintable, ih, List.forall_mem_cons]

/-! ## Tokens and names -/

theorem exists_readElement_of_elementLength {text : String}
    (h : Value.elementLength text = .ok text.length) :
    ∃ value, Value.readElement false text.toList = .ok (value, []) := by
  rw [Value.elementLength] at h
  cases read : Value.readElement false text.toList with
  | error fault => simp [read] at h
  | ok result =>
    obtain ⟨value, rest⟩ := result
    have shorter := Value.length_lt_of_readElement read
    simp only [read, Except.ok.injEq, ← String.length_toList] at h
    have none : rest = [] := List.length_eq_zero_iff.1 (by omega)
    exact ⟨value, by rw [none]⟩

/-- A token that can be written is one lexeme in front of a blank, with nothing to trim and no bracket. -/
theorem Writable.spec {token : String} (h : Writable token) :
    Stands endsWord token.toList ∧ Tidy token.toList ∧ Plain token.toList := by
  obtain ⟨kind, noBracket⟩ := h
  have whole : Stands endsWord token.toList ∧ Neat token.toList := by
    rcases kind with ⟨some, word⟩ | ⟨⟨c, first, quotes⟩, length⟩
    · refine ⟨?_, neat_of_word word⟩
      cases letters : token.toList with
      | nil => exact absurd (String.toList_eq_nil_iff.1 letters) some
      | cons c tail => exact (letters ▸ word).stands
    · obtain ⟨value, read⟩ := exists_readElement_of_elementLength length
      obtain ⟨tail, letters⟩ := List.head?_eq_some_iff.1 first
      rw [letters] at read ⊢
      obtain ⟨stands, last⟩ := stands_of_isQuote quotes read
      have ends : c ≠ '\\' ∧ isBlank c = false := by
        simp only [isQuote, Bool.or_eq_true, decide_eq_true_eq] at quotes
        rcases quotes with rfl | rfl <;> decide
      exact ⟨stands.mono fun _ _ => rfl,
        neat_of_getLast? (paired_of_getLast? last ends.1) last ends.2⟩
  obtain ⟨stands, neat⟩ := whole
  obtain ⟨c, tail, letters, -, stays⟩ := stands.exists_head
  refine ⟨stands, ⟨?_, ?_, neat⟩, neat.1, noBracket⟩
  · rw [letters]
    exact List.cons_ne_nil c tail
  · rw [letters]
    rintro d ⟨⟩
    exact stays

theorem WritableName.plain {name : String} (h : WritableName name) : Plain name.toList := by
  have each := h.2
  generalize name.toList = letters at each
  induction letters with
  | nil => exact plain_nil
  | cons c letters ih =>
    obtain ⟨⟨noBracket, plain⟩, later⟩ := List.forall_mem_cons.1 each
    exact (plain_bare plain).2 ⟨noBracket, ih later⟩

mutual

theorem Part.plain_of_printable {inChoice : Bool} (part : Part) (h : part.Printable inChoice) :
    (∀ word ∈ part.literalWords, Plain word.toList) ∧
      ∀ name ∈ part.argumentNames, Plain name.toList := by
  match part with
  | .literal tokens caseSensitive =>
    rw [Part.Printable] at h
    obtain ⟨-, -, writable, -⟩ := h
    rw [Part.literalWords, Part.argumentNames]
    exact ⟨fun word member => (writable word member).spec.2.2, List.forall_mem_nil _⟩
  | .argument name =>
    rw [Part.Printable] at h
    rw [Part.literalWords, Part.argumentNames, List.forall_mem_singleton]
    exact ⟨List.forall_mem_nil _, h.plain⟩
  | .optional body =>
    rw [Part.Printable] at h
    rw [Part.literalWords, Part.argumentNames]
    exact Grammar.plain_of_printable body h.2
  | .choices alternatives =>
    rw [Part.Printable] at h
    rw [Part.literalWords, Part.argumentNames]
    exact Grammar.plain_of_allPrintable alternatives h.2

/-- The words and names of a printable grammar hold no bare bracket. -/
theorem Grammar.plain_of_printable {inChoice : Bool} (grammar : List Part)
    (h : Grammar.Printable inChoice grammar) :
    (∀ word ∈ Grammar.literalWords grammar, Plain word.toList) ∧
      ∀ name ∈ Grammar.argumentNames grammar, Plain name.toList := by
  match grammar with
  | [] =>
    rw [Grammar.literalWords, Grammar.argumentNames]
    exact ⟨List.forall_mem_nil _, List.forall_mem_nil _⟩
  | part :: parts =>
    rw [Grammar.Printable] at h
    have first := Part.plain_of_printable part h.1
    have later := Grammar.plain_of_printable parts h.2
    rw [Grammar.literalWords, Grammar.argumentNames, List.forall_mem_append, List.forall_mem_append]
    exact ⟨⟨first.1, later.1⟩, first.2, later.2⟩

theorem Grammar.plain_of_allPrintable (alternatives : List (List Part))
    (h : Grammar.AllPrintable alternatives) :
    (∀ word ∈ Grammar.alternativeWords alternatives, Plain word.toList) ∧
      ∀ name ∈ Grammar.alternativeNames alternatives, Plain name.toList := by
  match alternatives with
  | [] =>
    rw [Grammar.alternativeWords, Grammar.alternativeNames]
    exact ⟨List.forall_mem_nil _, List.forall_mem_nil _⟩
  | alternative :: alternatives =>
    rw [Grammar.AllPrintable] at h
    have first := Grammar.plain_of_printable alternative h.1.2
    have later := Grammar.plain_of_allPrintable alternatives h.2
    rw [Grammar.alternativeWords, Grammar.alternativeNames, List.forall_mem_append,
      List.forall_mem_append]
    exact ⟨⟨first.1, later.1⟩, first.2, later.2⟩

end

/-! ## Texts of printable grammars -/

theorem stand_of_writable {tokens : List String} (h : ∀ token ∈ tokens, Writable token) :
    Stand (tokens.map String.toList) := by
  induction tokens with
  | nil => trivial
  | cons token tokens ih =>
    obtain ⟨first, later⟩ := List.forall_mem_cons.1 h
    exact .cons first.spec.1 (ih later)

theorem tidy_tokensText {tokens : List String} (some : tokens ≠ [])
    (h : ∀ token ∈ tokens, Writable token) : Tidy (tokensText false tokens) := by
  obtain ⟨solid, starts⟩ := starts_of_stand (stand_of_writable h)
  refine ⟨spaced_ne_nil (by simpa using some) solid, starts, neat_spaced solid ?_⟩
  exact List.forall_mem_map.2 fun token member => (h token member).spec.2.1.neat

theorem Nested.tidy_bracket {opening closing : Char} (matching : Matching opening closing)
    {contents : List Char} (h : Nested contents) : Tidy (opening :: contents ++ [closing]) := by
  have stays : isBlank opening = false ∧ isBlank closing = false := by cases matching <;> decide
  refine ⟨by simp, ?_, neat_bare (.bare matching.plain.1 h.paired) matching.plain.2 stays.2⟩
  rintro c ⟨⟩
  exact stays.1

theorem Part.tidy_text {inChoice : Bool} {part : Part} (h : part.Printable inChoice) :
    Tidy (part.text false) := by
  obtain ⟨words, names⟩ := part.plain_of_printable h
  cases part with
  | literal tokens caseSensitive =>
    rw [Part.Printable] at h
    obtain ⟨-, some, writable, -⟩ := h
    rw [Part.text]
    exact tidy_tokensText some writable
  | argument name =>
    rw [Part.argumentNames, List.forall_mem_singleton] at names
    rw [Part.text]
    exact Nested.tidy_bracket .brace (.plain names)
  | optional body =>
    rw [Part.text]
    exact (Grammar.nested_text body false words names).tidy_bracket .round
  | choices alternatives =>
    rw [Part.text]
    exact (Grammar.nested_alternativesText alternatives words names).tidy_bracket .square

/-- The text of a printable grammar has no blank to trim. -/
theorem Grammar.tidy_text {inChoice : Bool} {grammar : Grammar} (some : grammar ≠ [])
    (h : Grammar.Printable inChoice grammar) : Tidy (Grammar.text false grammar) := by
  induction grammar with
  | nil => exact absurd rfl some
  | cons part parts ih =>
    rw [Grammar.Printable] at h
    cases parts with
    | nil =>
      rw [Grammar.text]
      exact Part.tidy_text h.1
    | cons next parts =>
      rw [Grammar.text_cons_cons]
      exact (Part.tidy_text h.1).append_blank (ih (List.cons_ne_nil next parts) h.2)

theorem Part.clear_text {part : Part} (h : part.Printable true) {more : List Mark}
    (later : Clear 0 more) : Clear 0 (marks (part.text false) ++ more) := by
  obtain ⟨words, names⟩ := part.plain_of_printable h
  cases part with
  | literal tokens caseSensitive =>
    rw [Part.Printable] at h
    obtain ⟨-, -, -, bare⟩ := h
    rw [Part.literalWords] at words
    rw [Part.text]
    refine clear_append_of_commas (fun mark => (plain_tokensText false words).eq_comma_of_mem)
      (fun _ member => ?_) later
    have paired : ∀ token ∈ tokens.map String.toList, Paired token :=
      List.forall_mem_map.2 fun token inTokens => (words token inTokens).1
    rw [tokensText_false, (paired_spaced paired).2, List.mem_flatMap] at member
    obtain ⟨token, inTokens, escaped⟩ := member
    obtain ⟨word, isWord, rfl⟩ := List.mem_map.1 inTokens
    exact bare rfl word isWord escaped
  | argument name =>
    rw [Part.argumentNames, List.forall_mem_singleton] at names
    rw [Part.text]
    exact clear_bracket .brace names.1 (Nested.plain names).clear_append later
  | optional body =>
    have nested := Grammar.nested_text body false words names
    rw [Part.text]
    exact clear_bracket .round nested.paired nested.clear_append later
  | choices alternatives =>
    have nested := Grammar.nested_alternativesText alternatives words names
    rw [Part.text]
    exact clear_bracket .square nested.paired nested.clear_append later

theorem Grammar.clear_text {grammar : Grammar} (h : Grammar.Printable true grammar) :
    Clear 0 (marks (Grammar.text false grammar)) := by
  induction grammar with
  | nil =>
    rw [Grammar.text]
    trivial
  | cons part parts ih =>
    rw [Grammar.Printable] at h
    cases parts with
    | nil =>
      have whole := @Part.clear_text part h.1 [] trivial
      rw [List.append_nil] at whole
      rw [Grammar.text]
      exact whole
    | cons next parts =>
      rw [Grammar.text_cons_cons, (Part.tidy_text h.1).neat.1.marks_append, marks_bare (by decide),
        bareMark_of_isBlank (by decide), List.nil_append]
      exact Part.clear_text h.1 (ih h.2)

/-- An alternative is a piece of the choice that it stands in. -/
theorem Grammar.isPiece_text {grammar : Grammar} (h : Grammar.Printable true grammar) :
    IsPiece (Grammar.text false grammar) := by
  obtain ⟨words, names⟩ := Grammar.plain_of_printable grammar h
  have nested := Grammar.nested_text grammar false words names
  exact ⟨nested.paired, Grammar.clear_text h, nested.depthBehind_eq⟩

/-- A choice is divided into the alternatives that it was written for. -/
theorem alternativeTexts_alternativesText {alternatives : List Grammar} (some : alternatives ≠ [])
    (h : Grammar.AllPrintable alternatives) :
    alternativeTexts (Grammar.alternativesText alternatives) =
      alternatives.map (Grammar.text false) := by
  obtain ⟨words, names⟩ := Grammar.plain_of_allPrintable alternatives h
  have safe : ∀ alternative ∈ alternatives,
      Grammar.safeText alternative = Grammar.text false alternative ∧
        Tidy (Grammar.safeText alternative) ∧ IsPiece (Grammar.safeText alternative) := by
    intro alternative member
    obtain ⟨more, printable⟩ := Grammar.allPrintable_iff.1 h alternative member
    obtain ⟨words, names⟩ := Grammar.plain_of_printable alternative printable
    have same := Grammar.safeText_eq alternative words names
    rw [same]
    exact ⟨rfl, Grammar.tidy_text more printable, Grammar.isPiece_text printable⟩
  have isPieces : Pieces 0 (writtenPieces alternatives) := by
    cases alternatives with
    | nil => exact absurd rfl some
    | cons alternative alternatives =>
      obtain ⟨⟨-, -, first⟩, later⟩ := List.forall_mem_cons.1 safe
      refine pieces_of_forall (List.cons_ne_nil _ _) (List.forall_mem_cons.2 ⟨first, ?_⟩)
      exact List.forall_mem_map.2 fun other member => (later other member).2.2.cons_blank
  rw [← Grammar.safeAlternatives_eq alternatives words names, ← joinPieces_writtenPieces,
    alternativeTexts, splitChoices_joinPieces isPieces,
    trimmed_alternatives fun alternative member => (safe alternative member).2.1]
  exact List.map_congr_left fun alternative member => (safe alternative member).1

end Phrasebook
