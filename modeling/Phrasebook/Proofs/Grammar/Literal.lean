import Phrasebook.Grammar.Compile
import Phrasebook.Grammar.Format
import Phrasebook.Proofs.Grammar.Match
import Phrasebook.Proofs.Grammar.Thinning
import Phrasebook.Proofs.Input.Respelling

/-!
# Literals of a format string

Text outside brackets is `Plain`, and `readLiteral` reads it in front of every bracket that opens. A
literal keeps the tokens of its text and loses the blanks and separators between them. If all tokens
are neat, the literal is written down with the same marks and read again: `reread_literalParts`.
-/

namespace Phrasebook

open Phrasebook.Text Phrasebook.Input

/-! ## Text outside brackets -/

/-- Text in which every bracket is escaped. -/
def Plain (text : List Char) : Prop :=
  Paired text ∧ ∀ c, Mark.bracket c ∉ marks text

theorem bracket_notMem_bareMark {c : Char} :
    (∀ d, Mark.bracket d ∉ bareMark c) ↔ isBracket c = false := by
  rw [bareMark]
  split
  · next comma =>
    subst comma
    simp [isBracket, opensBracket, closesBracket]
  · cases bracket : isBracket c <;> simp

theorem plain_bare {c : Char} (plain : c ≠ '\\') {text : List Char} :
    Plain (c :: text) ↔ isBracket c = false ∧ Plain text := by
  simp only [Plain, paired_cons plain, marks_bare plain, List.mem_append, not_or, forall_and,
    bracket_notMem_bareMark]
  exact and_left_comm

theorem plain_escaped {c : Char} {text : List Char} : Plain ('\\' :: c :: text) ↔ Plain text := by
  simp only [Plain, paired_escaped, marks_escaped, List.mem_append, not_or, forall_and]
  exact ⟨fun h => ⟨h.1, h.2.2⟩, fun h => ⟨h.1, bracket_notMem_escapedMark c, h.2⟩⟩

theorem plain_nil : Plain [] :=
  ⟨.nil, fun _ member => by cases member⟩

theorem plain_blanks {blanks : List Char} (h : ∀ c ∈ blanks, isBlank c = true) : Plain blanks := by
  refine ⟨paired_of_blank h, fun c member => ?_⟩
  rw [marks_of_blank h] at member
  cases member

theorem plain_append {front : List Char} (h : Paired front) {back : List Char} :
    Plain (front ++ back) ↔ Plain front ∧ Plain back := by
  simp only [Plain, h.marks_append, List.mem_append, not_or, forall_and]
  constructor
  · intro whole
    obtain ⟨paired, inFront, inBack⟩ := whole
    exact ⟨⟨h, inFront⟩, h.of_append paired, inBack⟩
  · intro both
    obtain ⟨⟨-, inFront⟩, paired, inBack⟩ := both
    exact ⟨h.append paired, inFront, inBack⟩

theorem readLiteral_bare {c : Char} (plain : c ≠ '\\') (noBracket : isBracket c = false)
    (text : List Char) :
    readLiteral (c :: text) =
      (readLiteral text).map fun (literal, rest) => (c :: literal, rest) := by
  rw [isBracket, Bool.or_eq_false_iff] at noBracket
  cases text with
  | nil => simp [readLiteral, plain, noBracket, Except.map]
  | cons d text =>
    simp only [readLiteral, plain, noBracket, if_false, Bool.false_eq_true]
    split
    · next missing => rw [missing]; rfl
    · next found => rw [found]; rfl

theorem readLiteral_escaped (c : Char) (text : List Char) :
    readLiteral ('\\' :: c :: text) =
      (readLiteral text).map fun (literal, rest) => ('\\' :: c :: literal, rest) := by
  rw [readLiteral, if_pos rfl]
  split
  · next missing => rw [missing]; rfl
  · next found => rw [found]; rfl

theorem plain_of_opensBracket {c : Char} (opens : opensBracket c = true) : c ≠ '\\' := by
  rintro rfl
  exact absurd opens (by decide)

theorem readLiteral_opens {c : Char} (opens : opensBracket c = true) (text : List Char) :
    readLiteral (c :: text) = .ok ([], c :: text) := by
  have plain := plain_of_opensBracket opens
  have stays : closesBracket c = false := by
    simp only [opensBracket, Bool.or_eq_true, decide_eq_true_eq] at opens
    rcases opens with (rfl | rfl) | rfl <;> decide
  cases text with
  | nil => simp [readLiteral, plain, opens, stays]
  | cons d text => simp [readLiteral, plain, opens, stays]

/-- A bracket that closes has nothing to close. -/
theorem readLiteral_closes {c : Char} (plain : c ≠ '\\') (closes : closesBracket c = true)
    (text : List Char) : readLiteral (c :: text) = .error (.unexpectedBracket c) := by
  cases text with
  | nil => rw [readLiteral, if_neg plain, if_pos closes]
  | cons d text => rw [readLiteral, if_neg plain, if_pos closes]

/-- Plain text in front of another text is read with the literal in front of that. -/
theorem Plain.readLiteral_append {front : List Char} (h : Plain front) (rest : List Char) :
    readLiteral (front ++ rest) =
      (readLiteral rest).map fun (literal, rest) => (front ++ literal, rest) := by
  obtain ⟨paired, -⟩ := id h
  induction paired with
  | nil => cases read : readLiteral rest <;> simp [read, Except.map]
  | bare plain _ ih =>
    obtain ⟨noBracket, later⟩ := (plain_bare plain).1 h
    rw [List.cons_append, readLiteral_bare plain noBracket, ih later]
    cases readLiteral rest <;> rfl
  | escaped _ ih =>
    rw [List.cons_append, List.cons_append, readLiteral_escaped, ih (plain_escaped.1 h)]
    cases readLiteral rest <;> rfl

/-- Plain text is read up to its end or up to a bracket that opens. -/
theorem readLiteral_append {front : List Char} (h : Plain front) {rest : List Char}
    (opens : ∀ c ∈ rest.head?, opensBracket c = true) :
    readLiteral (front ++ rest) = .ok (front, rest) := by
  have stops : readLiteral rest = .ok ([], rest) := by
    cases rest with
    | nil => rfl
    | cons c rest => exact readLiteral_opens (opens c rfl) rest
  rw [h.readLiteral_append, stops]
  simp only [Except.map, List.append_nil]

/-- What is read is plain. -/
theorem plain_of_readLiteral {text front rest : List Char}
    (h : readLiteral text = .ok (front, rest)) : text = front ++ rest ∧ Plain front := by
  fun_induction readLiteral text generalizing front with
  | case1 =>
    cases h
    exact ⟨rfl, plain_nil⟩
  | case2 => cases h
  | case3 => cases h
  | case4 =>
    cases h
    exact ⟨rfl, plain_nil⟩
  | case5 c plain stays opens =>
    cases h
    refine ⟨rfl, (plain_bare plain).2 ⟨?_, plain_nil⟩⟩
    rw [isBracket, Bool.eq_false_iff.2 stays, Bool.eq_false_iff.2 opens]
    rfl
  | case6 => cases h
  | case7 d text front' rest' read ih =>
    cases h
    obtain ⟨equal, isPlain⟩ := ih read
    exact ⟨by rw [equal]; rfl, plain_escaped.2 isPlain⟩
  | case8 => cases h
  | case9 =>
    cases h
    exact ⟨rfl, plain_nil⟩
  | case10 => cases h
  | case11 c d text plain stays opens front' rest' read ih =>
    cases h
    obtain ⟨equal, isPlain⟩ := ih read
    refine ⟨by rw [equal]; rfl, (plain_bare plain).2 ⟨?_, isPlain⟩⟩
    rw [isBracket, Bool.eq_false_iff.2 stays, Bool.eq_false_iff.2 opens]
    rfl

/-! ## Tokens among lexemes -/

/-- The tokens among lexemes, also of different calls. -/
def tokensOf : List Lexeme → List (List Char)
  | [] => []
  | .separator :: more => tokensOf more
  | .token token :: more => token :: tokensOf more

theorem flatten_splitCalls (found : List Lexeme) : (splitCalls found).flatten = tokensOf found := by
  induction found with
  | nil => rfl
  | cons lexeme found ih =>
    cases lexeme with
    | separator => exact ih
    | token token =>
      rw [splitCalls, tokensOf, ← ih]
      cases splitCalls found <;> rfl

theorem flatten_calls (found : List Lexeme) : (calls found).flatten = tokensOf found := by
  rw [calls, List.flatten_filter_not_isEmpty, flatten_splitCalls]

theorem bareMark_of_separates {c : Char} (h : separates c = true) : bareMark c = [] := by
  rw [separates, Bool.or_eq_true, decide_eq_true_eq] at h
  rcases h with breaks | rfl
  · exact bareMark_of_isBlank (isBlank_of_isLineBreak breaks)
  · decide

theorem plain_of_separates {c : Char} (h : separates c = true) : c ≠ '\\' :=
  plain_of_endsWord (by rw [endsWord, h, Bool.or_true, Bool.true_or])

/-- The marks of a text are those of its tokens. -/
theorem marks_of_lexes {text : List Char} {found : List Lexeme} (h : Lexes text found)
    (paired : Paired text) (each : ∀ token ∈ tokensOf found, Paired token) :
    marks text = (tokensOf found).flatMap marks := by
  induction h with
  | nil => rfl
  | separator separates _ ih =>
    have plain := plain_of_separates separates
    rw [marks_bare plain, bareMark_of_separates separates, List.nil_append]
    exact ih ((paired_cons plain).1 paired) each
  | blank blank _ _ ih =>
    have plain := plain_of_isBlank blank
    rw [marks_bare plain, bareMark_of_isBlank blank, List.nil_append]
    exact ih ((paired_cons plain).1 paired) each
  | token _ _ _ _ ih =>
    have isToken := each _ List.mem_cons_self
    rw [isToken.marks_append, tokensOf, List.flatMap_cons,
      ih (isToken.of_append paired) fun token member => each token (List.mem_cons_of_mem _ member)]

/-! ## Tokens with blanks between them -/

theorem paired_spaced {call : List (List Char)} (each : ∀ token ∈ call, Paired token) :
    Paired ([' '].intercalate call) ∧ marks ([' '].intercalate call) = call.flatMap marks := by
  induction call with
  | nil => exact ⟨.nil, rfl⟩
  | cons token call ih =>
    have isToken := each token List.mem_cons_self
    cases call with
    | nil =>
      rw [List.intercalate_singleton, List.flatMap_singleton]
      exact ⟨isToken, rfl⟩
    | cons next more =>
      obtain ⟨later, equal⟩ := ih fun token member => each token (List.mem_cons_of_mem _ member)
      have blank : ' ' ≠ '\\' := by decide
      rw [List.intercalate_cons_cons, List.append_assoc, List.singleton_append]
      refine ⟨isToken.append (.bare blank later), ?_⟩
      rw [isToken.marks_append, marks_bare blank, equal, List.flatMap_cons]
      rfl

theorem spaced_ne_nil {call : List (List Char)} (some : call ≠ [])
    (solid : ∀ token ∈ call, token ≠ []) : [' '].intercalate call ≠ [] := by
  match call with
  | [] => exact absurd rfl some
  | [token] =>
    rw [List.intercalate_singleton]
    exact solid token List.mem_cons_self
  | token :: next :: more =>
    rw [List.intercalate_cons_cons]
    simp

theorem neat_spaced {call : List (List Char)} (solid : ∀ token ∈ call, token ≠ [])
    (each : ∀ token ∈ call, Neat token) : Neat ([' '].intercalate call) := by
  induction call with
  | nil => exact neat_nil
  | cons token call ih =>
    have isToken := each token List.mem_cons_self
    cases call with
    | nil =>
      rw [List.intercalate_singleton]
      exact isToken
    | cons next more =>
      have solidLater : ∀ token ∈ next :: more, token ≠ [] :=
        fun token member => solid token (List.mem_cons_of_mem _ member)
      have later := ih solidLater fun token member => each token (List.mem_cons_of_mem _ member)
      rw [List.intercalate_cons_cons]
      refine Neat.append (isToken.1.append (.bare (by decide) .nil)) later ?_
      exact spaced_ne_nil (List.cons_ne_nil next more) solidLater

theorem tokensText_false (tokens : List String) :
    tokensText false tokens = [' '].intercalate (tokens.map String.toList) :=
  rfl

theorem tokensText_append {tokens more : List String} (some : tokens ≠ []) (some' : more ≠ []) :
    tokensText false (tokens ++ more) = tokensText false tokens ++ ' ' :: tokensText false more := by
  rw [tokensText_false, tokensText_false, tokensText_false, List.map_append]
  induction tokens with
  | nil => exact absurd rfl some
  | cons token tokens ih =>
    cases tokens with
    | nil =>
      obtain ⟨next, more, rfl⟩ := List.exists_cons_of_ne_nil some'
      rw [List.map_singleton, List.singleton_append, List.map_cons, List.intercalate_cons_cons,
        List.intercalate_singleton, List.append_assoc, List.singleton_append]
    | cons next tokens =>
      have later := ih (List.cons_ne_nil next tokens)
      rw [List.map_cons, List.cons_append] at later
      rw [List.map_cons, List.map_cons, List.cons_append, List.cons_append,
        List.intercalate_cons_cons, List.intercalate_cons_cons, later]
      simp only [List.append_assoc]

/-! ## Literals -/

theorem exists_lexes_of_tokenizeSingle {text : List Char} {tokens : List String}
    (h : tokenizeSingle (String.ofList text) = .ok tokens) :
    (∃ found, Lexes text found ∧ tokensOf found = tokens.map String.toList) ∧ tokens ≠ [] ∧
      Stand (tokens.map String.toList) := by
  have single : tokenize (String.ofList text) = .ok [tokens] := by
    rw [tokenizeSingle] at h
    split at h
    · cases h
    · next same => rw [← Except.ok.inj h, same]
    · cases h
  refine ⟨?_, stand_of_tokenize single tokens List.mem_cons_self⟩
  rw [tokenize, readCalls, String.toList_ofList] at single
  cases read : lexemes text with
  | error fault => simp [read, Except.map] at single
  | ok found =>
    refine ⟨found, lexes_of_lexemes read, ?_⟩
    simp only [read, Except.map, Except.ok.injEq] at single
    have one : (calls found).map (fun call => call.map String.ofList) = [tokens] := single
    rw [List.map_eq_singleton_iff] at one
    obtain ⟨call, isCall, rfl⟩ := one
    rw [← flatten_calls, isCall, List.flatten_singleton, List.map_map]
    simp

/-- A literal without parts is blank, and any other one is one call. -/
theorem cases_of_literalParts {front : List Char} {parts : Grammar}
    (h : literalParts front = .ok parts) :
    (trimUnescaped front = [] ∧ parts = []) ∨
      ∃ tokens, tokenizeSingle (String.ofList (trimUnescaped front)) = .ok tokens ∧
        parts = [.literal tokens false] := by
  rw [literalParts] at h
  simp only [List.isEmpty_iff] at h
  split at h
  · next empty => exact .inl ⟨empty, (Except.ok.inj h).symm⟩
  · cases read : tokenizeSingle (String.ofList (trimUnescaped front)) with
    | error fault => simp [Part.literal?, read] at h
    | ok tokens =>
      simp only [Part.literal?, read, Except.ok.injEq] at h
      exact .inr ⟨tokens, rfl, h.symm⟩

/-- How the parts that a text outside brackets stands for are written down. -/
structure Reread (front : List Char) (parts : Grammar) : Prop where
  marks_eq : marks (Grammar.text false parts) = marks front
  neat : Neat (Grammar.text false parts)
  starts : ∀ c ∈ (Grammar.text false parts).head?, isBlank c = false
  nonempty : parts ≠ [] → Grammar.text false parts ≠ []
  again : ∀ text, trimUnescaped text = Grammar.text false parts → literalParts text = .ok parts

theorem starts_of_stand {call : List (List Char)} (h : Stand call) :
    (∀ token ∈ call, token ≠ []) ∧
      ∀ c ∈ ([' '].intercalate call).head?, isBlank c = false := by
  have heads : ∀ token ∈ call, ∃ c tail, token = c :: tail ∧ isBlank c = false := by
    intro token member
    have stands : Stands isLineBreak token := h.last_of_mem token member
    obtain ⟨c, tail, equal, -, stays⟩ := stands.exists_head
    exact ⟨c, tail, equal, stays⟩
  refine ⟨fun token member => ?_, ?_⟩
  · obtain ⟨c, tail, rfl, -⟩ := heads token member
    exact List.cons_ne_nil c tail
  · match call with
    | [] => intro c member; cases member
    | [token] =>
      obtain ⟨c, tail, rfl, stays⟩ := heads token List.mem_cons_self
      rw [List.intercalate_singleton]
      intro d member
      cases member
      exact stays
    | token :: next :: more =>
      obtain ⟨c, tail, rfl, stays⟩ := heads token List.mem_cons_self
      rw [List.intercalate_cons_cons]
      intro d member
      cases member
      exact stays

/-- A text of tokens that may stand in one call is the literal of these tokens. -/
theorem literalParts_of_stand {tokens : List String} (some : tokens ≠ [])
    (stand : Stand (tokens.map String.toList)) {text : List Char}
    (trimmed : trimUnescaped text = tokensText false tokens) :
    literalParts text = .ok [.literal tokens false] := by
  have one := tokenize_call_of_stand some stand
  have spelled : String.ofList (tokensText false tokens) = " ".intercalate tokens := by
    rw [← String.toList_inj, String.toList_ofList, String.toList_intercalate]
    rfl
  have nonempty : tokensText false tokens ≠ [] :=
    spaced_ne_nil (by simpa using some) (starts_of_stand stand).1
  rw [← spelled] at one
  rw [literalParts, trimmed, Part.literal?, tokenizeSingle_of_tokenize one]
  simp [nonempty]

/-- A literal of neat tokens is written down with the same marks, and read again. -/
theorem reread_literalParts {front : List Char} {parts : Grammar} (paired : Paired front)
    (h : literalParts front = .ok parts)
    (each : ∀ token ∈ Grammar.literalWords parts, Neat token.toList) : Reread front parts := by
  obtain ⟨-, -, -, -, -, -, neat⟩ := exists_trimUnescaped paired
  have same := marks_trimUnescaped paired
  rcases cases_of_literalParts h with ⟨empty, rfl⟩ | ⟨tokens, single, rfl⟩
  · rw [empty] at same
    refine ⟨same, neat_nil, ?_, fun some => absurd rfl some, ?_⟩
    · intro c member
      cases member
    · intro text trimmed
      rw [literalParts, trimmed]
      rfl
  · obtain ⟨⟨found, lexes, tokens_eq⟩, some, stand⟩ := exists_lexes_of_tokenizeSingle single
    have isNeat : ∀ token ∈ tokens.map String.toList, Neat token := by
      intro token member
      obtain ⟨word, inTokens, rfl⟩ := List.mem_map.1 member
      exact each word (by simpa [Grammar.literalWords, Part.literalWords] using inTokens)
    obtain ⟨solid, starts⟩ := starts_of_stand stand
    have nonempty : [' '].intercalate (tokens.map String.toList) ≠ [] :=
      spaced_ne_nil (by simpa using some) solid
    have written : Grammar.text false [.literal tokens false] =
        [' '].intercalate (tokens.map String.toList) := rfl
    refine ⟨?_, ?_, ?_, fun _ => ?_, ?_⟩
    all_goals rw [written]
    · rw [(paired_spaced fun token member => (isNeat token member).1).2, ← tokens_eq, ← same]
      refine (marks_of_lexes lexes neat.1 fun token member => ?_).symm
      rw [tokens_eq] at member
      exact (isNeat token member).1
    · exact neat_spaced solid isNeat
    · exact starts
    · exact nonempty
    · exact fun text trimmed => literalParts_of_stand some stand trimmed

end Phrasebook
