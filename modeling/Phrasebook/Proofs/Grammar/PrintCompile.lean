import Phrasebook.Proofs.Grammar.Merging
import Phrasebook.Proofs.Grammar.Printable

/-!
# Compiling what was printed

`compile_format_iff` is about grammars that were compiled. The format string of any printable grammar
compiles: to the grammar with each run of literals merged into one (`compile_format_merged`), since a format
string does not show where one literal ends and the next one begins. The merged grammar fits the same calls.
-/

namespace Phrasebook

open Phrasebook.Text Phrasebook.Input

/-! ## Literals -/

/-- Two literals one behind the other are written like one literal. -/
theorem text_literals {tokens more : List String} (some : tokens ≠ []) (some' : more ≠ [])
    (parts : Grammar) :
    Grammar.text false (.literal tokens false :: .literal more false :: parts) =
      Grammar.text false (.literal (tokens ++ more) false :: parts) := by
  have own := tokensText_append some some'
  rw [Grammar.text_cons_cons, Part.text]
  cases parts with
  | nil => rw [Grammar.text, Grammar.text, Part.text, Part.text, own]
  | cons next parts =>
    rw [Grammar.text_cons_cons, Grammar.text_cons_cons, Part.text, Part.text, own, List.append_assoc,
      List.cons_append]

/-- The text of a literal is compiled to it, with a blank behind it or without. -/
theorem compiles_tokensText {tokens : List String} (some : tokens ≠ [])
    (h : ∀ token ∈ tokens, Writable token) :
    (Plain (tokensText false tokens) ∧
      literalParts (tokensText false tokens) = .ok [.literal tokens false]) ∧
    Plain (tokensText false tokens ++ [' ']) ∧
      literalParts (tokensText false tokens ++ [' ']) = .ok [.literal tokens false] := by
  have tidy := tidy_tokensText some h
  have plain := plain_tokensText false fun token member => (h token member).spec.2.2
  have stand := stand_of_writable h
  have blank : ∀ c ∈ [' '], isBlank c = true := List.forall_mem_singleton.2 (by decide)
  have trimmed := @trimUnescaped_of_neat [] _ [' '] (List.forall_mem_nil _) blank tidy.starts tidy.neat
  exact ⟨⟨plain, literalParts_of_stand some stand tidy.trimUnescaped_eq⟩,
    (plain_append plain.1).2 ⟨plain, plain_blanks blank⟩, literalParts_of_stand some stand trimmed⟩

/-! ## Brackets -/

/-- A part with brackets is compiled behind every text and in front of every text. -/
def CompilesBracket (part : Part) : Prop :=
  ∀ {front rest : List Char} {parts more : Grammar},
    Plain front → literalParts front = .ok parts → Compiles rest more →
    Compiles (front ++ (part.text false ++ rest)) (parts ++ part.merged :: more)

theorem compiles_bracket_cons {front : List Char} {parts : Grammar} {part : Part} {more : Grammar}
    (bracket : CompilesBracket part) (plain : Plain front) (literal : literalParts front = .ok parts)
    (later : Compiles (Grammar.text false more) (Grammar.merged more)) :
    Compiles (front ++ Grammar.text false (part :: more))
      (parts ++ part.merged :: Grammar.merged more) := by
  cases more with
  | nil =>
    have whole := bracket plain literal later
    rw [Grammar.text, List.append_nil] at whole
    rw [Grammar.text]
    exact whole
  | cons next more =>
    rw [Grammar.text_cons_cons]
    exact bracket plain literal ((compiles_cons_blank (by decide)).2 later)

/-! ## Grammars -/

/-- A grammar is compiled from its text, literals merged, if its brackets are. -/
theorem compiles_text_of_brackets {inChoice : Bool} (grammar : Grammar)
    (h : Grammar.Printable inChoice grammar)
    (brackets : ∀ part ∈ grammar, part.hasBrackets = true → CompilesBracket part) :
    Compiles (Grammar.text false grammar) (Grammar.merged grammar) := by
  match grammar with
  | [] =>
    rw [Grammar.text, Grammar.merged]
    exact .literal plain_nil rfl
  | part :: parts =>
    rw [Grammar.Printable] at h
    rw [List.forall_mem_cons] at brackets
    obtain ⟨first, later⟩ := h
    cases kind : part.hasBrackets with
    | true =>
      rw [Grammar.merged, joinPart_of_hasBrackets kind]
      exact compiles_bracket_cons (brackets.1 kind) plain_nil rfl
        (compiles_text_of_brackets parts later brackets.2)
    | false =>
      obtain ⟨tokens, caseSensitive, rfl⟩ := exists_literal_of_hasBrackets kind
      rw [Part.Printable] at first
      obtain ⟨rfl, some, writable, bare⟩ := first
      obtain ⟨⟨plain, literal⟩, plainBlank, literalBlank⟩ := compiles_tokensText some writable
      cases parts with
      | nil =>
        rw [Grammar.text, Part.text]
        exact .literal plain literal
      | cons next parts =>
        rw [Grammar.Printable] at later
        rw [List.forall_mem_cons] at brackets
        obtain ⟨second, others⟩ := later
        cases kind' : next.hasBrackets with
        | true =>
          have behind := compiles_text_of_brackets parts others brackets.2.2
          have whole := compiles_bracket_cons (brackets.2.1 kind') plainBlank literalBlank behind
          rw [List.append_assoc, List.singleton_append] at whole
          rw [Grammar.text_cons_cons, Part.text, Grammar.merged, Grammar.merged, Part.merged,
            joinPart_of_hasBrackets kind', joinPart_literal_of_hasBrackets kind']
          exact whole
        | false =>
          obtain ⟨more, caseSensitive, rfl⟩ := exists_literal_of_hasBrackets kind'
          rw [Part.Printable] at second
          obtain ⟨rfl, some', writable', bare'⟩ := second
          rw [text_literals some some', merged_literals]
          have joined : Grammar.Printable inChoice (.literal (tokens ++ more) false :: parts) := by
            rw [Grammar.Printable, Part.Printable]
            refine ⟨⟨rfl, by simp [some], List.forall_mem_append.2 ⟨writable, writable'⟩, ?_⟩, others⟩
            exact fun within => List.forall_mem_append.2 ⟨bare within, bare' within⟩
          exact compiles_text_of_brackets _ joined
            (List.forall_mem_cons.2 ⟨Bool.noConfusion, brackets.2.2⟩)
termination_by grammar.length

mutual

theorem Part.compiles_bracket {inChoice : Bool} (part : Part) (h : part.Printable inChoice)
    (kind : part.hasBrackets = true) : CompilesBracket part := by
  obtain ⟨words, names⟩ := part.plain_of_printable h
  match part with
  | .literal tokens caseSensitive => cases kind
  | .argument name =>
    rw [Part.Printable] at h
    rw [Part.argumentNames, List.forall_mem_singleton] at names
    intro front rest parts more plain literal later
    have noBrace : '{' ∉ name.toList := fun member => by cases (h.2 '{' member).1
    have whole := Compiles.argument plain literal ((Nested.plain names).encloses .brace) noBrace h.1
      later
    rw [String.ofList_toList] at whole
    rw [Part.text, append_bracket, Part.merged]
    exact whole
  | .optional body =>
    rw [Part.Printable] at h
    obtain ⟨some, inside⟩ := h
    intro front rest parts more plain literal later
    have nested := Grammar.nested_text body false words names
    rw [Part.text, append_bracket, Part.merged]
    exact .optional plain literal (nested.encloses .round)
      (compiles_text_of_brackets body inside (Grammar.compiles_brackets body inside))
      (merged_ne_nil some) later
  | .choices alternatives =>
    rw [Part.Printable] at h
    obtain ⟨some, inside⟩ := h
    intro front rest parts more plain literal later
    have nested := Grammar.nested_alternativesText alternatives words names
    have all := Grammar.compiles_alternatives alternatives inside
    rw [← alternativeTexts_alternativesText some inside] at all
    obtain ⟨length, each⟩ := List.forall₂_iff_zip.1 all
    have some' : Grammar.mergedAll alternatives ≠ [] := by
      rw [Grammar.mergedAll_eq_map]
      simpa using some
    rw [Part.text, append_bracket, Part.merged]
    exact .choices plain literal (nested.encloses .square) length (fun _ _ member => each member)
      some' later

/-- The brackets of a printable grammar are compiled. -/
theorem Grammar.compiles_brackets {inChoice : Bool} (grammar : List Part)
    (h : Grammar.Printable inChoice grammar) :
    ∀ part ∈ grammar, part.hasBrackets = true → CompilesBracket part := by
  match grammar with
  | [] => exact List.forall_mem_nil _
  | part :: parts =>
    rw [Grammar.Printable] at h
    exact List.forall_mem_cons.2
      ⟨Part.compiles_bracket part h.1, Grammar.compiles_brackets parts h.2⟩

theorem Grammar.compiles_alternatives (alternatives : List (List Part))
    (h : Grammar.AllPrintable alternatives) :
    List.Forall₂ Compiles (alternatives.map (Grammar.text false))
      (Grammar.mergedAll alternatives) := by
  match alternatives with
  | [] =>
    rw [Grammar.mergedAll]
    exact .nil
  | alternative :: alternatives =>
    rw [Grammar.AllPrintable] at h
    obtain ⟨⟨-, first⟩, later⟩ := h
    rw [Grammar.mergedAll]
    exact .cons (compiles_text_of_brackets alternative first
      (Grammar.compiles_brackets alternative first)) (Grammar.compiles_alternatives alternatives later)

end

/-- **Printing and compiling.** The format string of a printable grammar compiles to the grammar with each
run of literals merged into one, at every depth, and this fits the same tokens. -/
theorem compile_format_merged {grammar : Grammar} (h : Grammar.Printable false grammar) :
    compile (Grammar.format grammar) = .ok (Grammar.merged grammar) ∧
      ∀ tokens, Grammar.match? tokens (Grammar.merged grammar) = Grammar.match? tokens grammar := by
  refine ⟨?_, Grammar.match?_merged grammar⟩
  rw [compile, Grammar.format, String.toList_ofList, ← compiles_iff]
  exact compiles_text_of_brackets grammar h (Grammar.compiles_brackets grammar h)

theorem compile_format_merged_nested :
    let grammar : Grammar :=
      [.literal ["say"] false, .literal ["'a, b'"] false,
        .choices [[.argument "what"],
          [.literal ["x,y"] false, .literal ["z"] false, .optional [.literal ["w\\ "] false]]]]
    let merged : Grammar :=
      [.literal ["say", "'a, b'"] false,
        .choices [[.argument "what"],
          [.literal ["x,y", "z"] false, .optional [.literal ["w\\ "] false]]]]
    Grammar.Printable false grammar ∧ compile (Grammar.format grammar) = .ok merged ∧
      ∀ tokens, Grammar.match? tokens merged = Grammar.match? tokens grammar := by
  intro grammar merged
  have noBracket : ∀ token ∈ ["say", "'a, b'", "x,y", "z", "w\\ "],
      ∀ c, Mark.bracket c ∉ marks token.toList := by
    simp [marks, bareMark, escapedMark, isBracket, opensBracket, closesBracket]
  have word : ∀ {token : String}, token ≠ "" → readWord token.toList = .ok (token.toList, []) →
      (∀ c, Mark.bracket c ∉ marks token.toList) → Writable token :=
    fun some read free => ⟨.inl ⟨some, (word_of_readWord read).1⟩, free⟩
  have measured : Value.elementLength "'a, b'" = .ok 6 := by
    simp [Value.elementLength, Value.readElement_eq, Value.skipTrivia, isBlank, Value.readQuoted_cons]
  have quotation : Writable "'a, b'" :=
    ⟨.inr ⟨⟨'\'', rfl, rfl⟩, measured⟩, noBracket _ (by simp)⟩
  have say : Writable "say" := word (by decide) rfl (noBracket _ (by simp))
  have first : Writable "x,y" := word (by decide) rfl (noBracket _ (by simp))
  have second : Writable "z" := word (by decide) rfl (noBracket _ (by simp))
  have third : Writable "w\\ " := word (by decide) rfl (noBracket _ (by simp))
  have printable : Grammar.Printable false grammar := by
    simp [grammar, Grammar.Printable, Part.Printable, Grammar.AllPrintable, WritableName, say,
      quotation, first, second, third, marks, bareMark, isBracket, opensBracket, closesBracket]
    decide
  exact ⟨printable, compile_format_merged printable⟩

end Phrasebook
