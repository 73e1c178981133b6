import Phrasebook.Proofs.Grammar.Nested
import Phrasebook.Proofs.Grammar.RoundTrip

/-!
# Names without brackets

`Grammar.text` escapes the commas of a literal that stands directly in a choice, and takes the brackets of
its parts for the ones that keep other commas from dividing the choice. A bracket in a name upsets this
count. If every bracket in the names is escaped, the two texts of a grammar are the same
(`Grammar.safeText_eq`), and the tokens alone decide whether a format is compiled again:
`compile_format_iff_of_plain_names`.
-/

namespace Phrasebook

/-! ## Directly in a choice -/

theorem Plain.escapeOutside_append {text : List Char} (h : Plain text) (rest : List Char) :
    escapeOutside 0 (text ++ rest) = escapeCommas text ++ escapeOutside 0 rest := by
  obtain ⟨paired, -⟩ := id h
  induction paired with
  | nil => rfl
  | @bare c text plain _ ih =>
    obtain ⟨noBracket, later⟩ := (plain_bare plain).1 h
    by_cases comma : c = ','
    · subst comma
      rw [List.cons_append, escapeOutside_comma, escapeCommas_comma, ih later]
      rfl
    · rw [List.cons_append, escapeOutside_bare plain fun ⟨same, _⟩ => comma same,
        charDepth_of_not_isBracket noBracket, escapeCommas_bare plain comma, ih later]
      rfl
  | escaped _ ih =>
    rw [List.cons_append, List.cons_append, escapeOutside_escaped, escapeCommas_escaped,
      ih (plain_escaped.1 h)]
    rfl

theorem escapeOutside_blank (text : List Char) :
    escapeOutside 0 (' ' :: text) = ' ' :: escapeOutside 0 text :=
  escapeOutside_bare (by decide) (by decide) text

theorem escapeOutside_tokensText {tokens : List String}
    (words : ∀ word ∈ tokens, Plain word.toList) (rest : List Char) :
    escapeOutside 0 (tokensText false tokens ++ rest) =
      tokensText true tokens ++ escapeOutside 0 rest := by
  simp only [tokensText, if_true, if_false, Bool.false_eq_true]
  induction tokens with
  | nil => rfl
  | cons token tokens ih =>
    obtain ⟨first, later⟩ := List.forall_mem_cons.1 words
    cases tokens with
    | nil =>
      rw [List.map_singleton, List.map_singleton, List.intercalate_singleton,
        List.intercalate_singleton]
      exact first.escapeOutside_append rest
    | cons next more =>
      have ih := ih later
      rw [List.map_cons, List.map_cons] at ih
      rw [List.map_cons, List.map_cons, List.map_cons, List.map_cons, List.intercalate_cons_cons,
        List.intercalate_cons_cons, List.append_assoc, List.append_assoc, List.singleton_append,
        first.escapeOutside_append, escapeOutside_blank, ih]
      simp only [List.append_assoc, List.cons_append, List.nil_append]

theorem Part.escapeOutside_text (part : Part)
    (words : ∀ word ∈ part.literalWords, Plain word.toList)
    (names : ∀ name ∈ part.argumentNames, Plain name.toList) (rest : List Char) :
    escapeOutside 0 (part.text false ++ rest) = part.text true ++ escapeOutside 0 rest := by
  have bracket : ∀ {opening closing contents}, Matching opening closing → Inner contents →
      escapeOutside 0 (opening :: contents ++ [closing] ++ rest) =
        opening :: contents ++ [closing] ++ escapeOutside 0 rest := by
    intro opening closing contents matching inner
    have whole := inner.escapeOutside_bracket matching 0 rest
    simpa only [List.cons_append, List.append_assoc, List.nil_append] using whole
  cases part with
  | literal tokens caseSensitive =>
    rw [Part.literalWords] at words
    rw [Part.text, Part.text]
    exact escapeOutside_tokensText words rest
  | argument name =>
    rw [Part.argumentNames, List.forall_mem_singleton] at names
    rw [Part.text, Part.text]
    exact bracket .brace names.inner
  | optional body =>
    rw [Part.literalWords] at words
    rw [Part.argumentNames] at names
    rw [Part.text, Part.text]
    exact bracket .round (Grammar.nested_text body false words names).inner
  | choices alternatives =>
    rw [Part.literalWords] at words
    rw [Part.argumentNames] at names
    rw [Part.text, Part.text]
    exact bracket .square (Grammar.nested_alternativesText alternatives words names).inner

/-- Directly in a choice, the commas to escape are those of the literals outside brackets. -/
theorem escapeOutside_text (grammar : Grammar)
    (words : ∀ word ∈ Grammar.literalWords grammar, Plain word.toList)
    (names : ∀ name ∈ Grammar.argumentNames grammar, Plain name.toList) (rest : List Char) :
    escapeOutside 0 (Grammar.text false grammar ++ rest) =
      Grammar.text true grammar ++ escapeOutside 0 rest := by
  induction grammar with
  | nil => rfl
  | cons part parts ih =>
    rw [Grammar.literalWords, List.forall_mem_append] at words
    rw [Grammar.argumentNames, List.forall_mem_append] at names
    have first := part.escapeOutside_text words.1 names.1
    have later := ih words.2 names.2
    cases parts with
    | nil =>
      rw [Grammar.text, Grammar.text]
      exact first rest
    | cons next parts =>
      rw [Grammar.text_cons_cons, Grammar.text_cons_cons, List.append_assoc, first, List.cons_append,
        escapeOutside_blank, later, List.append_assoc, List.cons_append]

mutual

theorem Part.safeText_eq (part : Part)
    (words : ∀ word ∈ part.literalWords, Plain word.toList)
    (names : ∀ name ∈ part.argumentNames, Plain name.toList) :
    part.safeText = part.text false := by
  match part with
  | .literal tokens caseSensitive => rw [Part.safeText, Part.text]
  | .argument name => rw [Part.safeText, Part.text]
  | .optional body =>
    rw [Part.literalWords] at words
    rw [Part.argumentNames] at names
    rw [Part.safeText, Part.text, Grammar.safeText_eq body words names]
  | .choices alternatives =>
    rw [Part.literalWords] at words
    rw [Part.argumentNames] at names
    rw [Part.safeText, Part.text, Grammar.safeAlternatives_eq alternatives words names]

/-- Without bare brackets in names, every text is safe. -/
theorem Grammar.safeText_eq (grammar : List Part)
    (words : ∀ word ∈ Grammar.literalWords grammar, Plain word.toList)
    (names : ∀ name ∈ Grammar.argumentNames grammar, Plain name.toList) :
    Grammar.safeText grammar = Grammar.text false grammar := by
  match grammar with
  | [] => rw [Grammar.safeText, Grammar.text]
  | part :: parts =>
    rw [Grammar.literalWords, List.forall_mem_append] at words
    rw [Grammar.argumentNames, List.forall_mem_append] at names
    have first := Part.safeText_eq part words.1 names.1
    have later := Grammar.safeText_eq parts words.2 names.2
    cases parts with
    | nil => rw [Grammar.safeText, Grammar.text, first]
    | cons next parts =>
      rw [Grammar.safeText_cons_cons, Grammar.text_cons_cons, first, later]

theorem Grammar.safeAlternatives_eq (alternatives : List (List Part))
    (words : ∀ word ∈ Grammar.alternativeWords alternatives, Plain word.toList)
    (names : ∀ name ∈ Grammar.alternativeNames alternatives, Plain name.toList) :
    Grammar.safeAlternatives alternatives = Grammar.alternativesText alternatives := by
  match alternatives with
  | [] => rw [Grammar.safeAlternatives, Grammar.alternativesText]
  | alternative :: alternatives =>
    rw [Grammar.alternativeWords, List.forall_mem_append] at words
    rw [Grammar.alternativeNames, List.forall_mem_append] at names
    have first : escapeOutside 0 (Grammar.safeText alternative) = Grammar.text true alternative := by
      have whole := escapeOutside_text alternative words.1 names.1 []
      rw [List.append_nil, escapeOutside, List.append_nil] at whole
      rw [Grammar.safeText_eq alternative words.1 names.1, whole]
    have later := Grammar.safeAlternatives_eq alternatives words.2 names.2
    cases alternatives with
    | nil => rw [Grammar.safeAlternatives, Grammar.alternativesText, first]
    | cons next alternatives =>
      rw [Grammar.safeAlternatives_cons_cons, Grammar.alternativesText_cons_cons, first, later]

end

/-! ## Compiled grammars -/

theorem plain_literalWords_of_literalParts {front : List Char} {parts : Grammar}
    (plain : Plain front) (h : literalParts front = .ok parts)
    (neat : ∀ word ∈ Grammar.literalWords parts, Neat word.toList) :
    ∀ word ∈ Grammar.literalWords parts, Plain word.toList := by
  intro word member
  refine ⟨(neat word member).1, fun c bracket => plain.2 c ?_⟩
  rw [← (reread_literalParts plain.1 h neat).marks_eq]
  rcases cases_of_literalParts h with ⟨-, rfl⟩ | ⟨tokens, -, rfl⟩
  · cases member
  · rw [Grammar.literalWords, Part.literalWords, Grammar.literalWords, List.append_nil] at member neat
    have paired : ∀ token ∈ tokens.map String.toList, Paired token := by
      rw [List.forall_mem_map]
      exact fun token inTokens => (neat token inTokens).1
    rw [Grammar.text, Part.text, tokensText_false, (paired_spaced paired).2, List.mem_flatMap]
    exact ⟨word.toList, List.mem_map_of_mem member, bracket⟩

theorem plain_alternativeWords {texts : List (List Char)} {alternatives : List Grammar}
    (h : List.Forall₂ (fun _ alternative => ∀ word ∈ Grammar.literalWords alternative,
      Plain word.toList) texts alternatives) :
    ∀ word ∈ Grammar.alternativeWords alternatives, Plain word.toList := by
  induction h with
  | nil => intro word member; cases member
  | cons first _ ih =>
    rw [Grammar.alternativeWords, List.forall_mem_append]
    exact ⟨first, ih⟩

/-- The neat tokens of a compiled grammar hold no bare brackets. -/
theorem Compiles.plain_literalWords {text : List Char} {grammar : Grammar}
    (h : Compiles text grammar)
    (neat : ∀ word ∈ Grammar.literalWords grammar, Neat word.toList) :
    ∀ word ∈ Grammar.literalWords grammar, Plain word.toList := by
  induction h with
  | literal plain literal => exact plain_literalWords_of_literalParts plain literal neat
  | optional plain literal _ _ _ _ ih ih' =>
    rw [literalWords_append, List.forall_mem_append, Grammar.literalWords, List.forall_mem_append,
      Part.literalWords] at neat ⊢
    obtain ⟨inFront, inside, later⟩ := neat
    exact ⟨plain_literalWords_of_literalParts plain literal inFront, ih inside, ih' later⟩
  | argument plain literal _ _ _ _ ih =>
    rw [literalWords_append, List.forall_mem_append, Grammar.literalWords, List.forall_mem_append,
      Part.literalWords] at neat ⊢
    obtain ⟨inFront, -, later⟩ := neat
    refine ⟨plain_literalWords_of_literalParts plain literal inFront, ?_, ih later⟩
    intro word member
    cases member
  | choices plain literal _ length _ _ _ ih ih' =>
    rw [literalWords_append, List.forall_mem_append, Grammar.literalWords, List.forall_mem_append,
      Part.literalWords] at neat ⊢
    obtain ⟨inFront, inside, later⟩ := neat
    have all := List.forall₂_iff_zip.2 ⟨length, fun {text alternative} member =>
      ih text alternative member fun word inAlternative =>
        inside word (mem_alternativeWords (List.of_mem_zip member).2 inAlternative)⟩
    exact ⟨plain_literalWords_of_literalParts plain literal inFront, plain_alternativeWords all,
      ih' later⟩

/-- **Names without brackets.** If every bracket in the names of a compiled grammar is escaped, its format
string compiles to the grammar again if and only if no token ends with half an escape or a bare blank. -/
theorem compile_format_iff_of_plain_names {format : String} {grammar : Grammar}
    (h : compile format = .ok grammar)
    (names : ∀ name ∈ Grammar.argumentNames grammar, Plain name.toList) :
    compile (Grammar.format grammar) = .ok grammar ↔
      ∀ word ∈ Grammar.literalWords grammar, Neat word.toList := by
  rw [compile, Grammar.format, String.toList_ofList, ← compiles_iff]
  constructor
  · intro again
    exact (kept_of_compiles again false).neat (Nat.le_refl _)
  · intro neat
    have compiled := compiles_of_compileParts h
    rw [← Grammar.safeText_eq grammar (compiled.plain_literalWords neat) names]
    exact (reprints_of_compiles compiled neat).compiles

end Phrasebook
