import Phrasebook.Proofs.Command.Decoding
import Phrasebook.Proofs.Grammar.Sayable
import Phrasebook.Proofs.Value.BareSpelling

/-!
# Escapes in plain words

A text can be made a plain word by a backslash in front of every character that would end the word
and of every backslash (`escapeWord`). The word is one token, but the backslashes are there for the
lexer only: a bare value is taken as it is spelled, so that the word is decoded to itself and not to
the text. `argument_escaped` says what the argument of a call is then, and that it is the text just
when nothing in it needs a backslash. Blanks at the end of a value are trimmed, also those behind a
backslash.

A backslash in the word is kept by trimming, so that backslashes count what was escaped:
`count_escapeWord`.
-/

namespace Phrasebook

open Phrasebook.Text Phrasebook.Value Phrasebook.Input

/-- The characters that a plain word holds behind a backslash only. -/
def needsEscape (c : Char) : Bool :=
  c = '\\' || endsWord c

/-- A character as a plain word spells it. -/
def escapeChar (c : Char) : List Char :=
  if needsEscape c then ['\\', c] else [c]

/-- The plain word that is made of a text. -/
def escapeWord (text : List Char) : List Char :=
  text.flatMap escapeChar

/-- The plain word as a token. -/
def asWord (text : String) : String :=
  String.ofList (escapeWord text.toList)

/-- Texts that do not look like another kind of value. -/
structure Wordlike (text : List Char) : Prop where
  holds : text ≠ []
  inLine : ∀ c ∈ text, isLineBreak c = false
  noComma : text.head? ≠ some ','
  noLiteral : text ∉ ["true".toList, "false".toList, "null".toList]
  noNumber : ∀ c ∈ (text.dropWhile isSign).head?, c.isDigit = false ∧ c ≠ '.'

/-! ## The word -/

theorem escapeChar_of_needsEscape {c : Char} (h : needsEscape c = true) :
    escapeChar c = ['\\', c] :=
  if_pos h

theorem escapeChar_self {c : Char} (h : needsEscape c = false) : escapeChar c = [c] :=
  if_neg (by simp [h])

theorem escapeWord_cons (c : Char) (text : List Char) :
    escapeWord (c :: text) = escapeChar c ++ escapeWord text :=
  List.flatMap_cons

theorem word_escapeWord (text : List Char) : Word (escapeWord text) := by
  induction text with
  | nil => exact .nil
  | cons c text ih =>
    rw [escapeWord_cons]
    cases h : needsEscape c with
    | true =>
      rw [escapeChar_of_needsEscape h]
      exact .escape ih
    | false =>
      rw [escapeChar_self h]
      simp only [needsEscape, Bool.or_eq_false_iff, decide_eq_false_iff_not] at h
      exact .plain h.1 h.2 ih

theorem mem_escapeWord {text : List Char} {c : Char} (h : c ∈ escapeWord text) :
    c = '\\' ∨ c ∈ text := by
  obtain ⟨d, isChar, member⟩ := List.mem_flatMap.1 h
  unfold escapeChar at member
  split at member
  · rcases List.mem_cons.1 member with rfl | same
    · exact .inl rfl
    · rw [List.mem_singleton.1 same]
      exact .inr isChar
  · rw [List.mem_singleton.1 member]
    exact .inr isChar

/-- Besides its own, a word has a backslash for every character that needs one. -/
theorem count_escapeWord (text : List Char) :
    (escapeWord text).count '\\' = text.count '\\' + text.countP needsEscape := by
  induction text with
  | nil => rfl
  | cons c text ih =>
    rw [escapeWord_cons, List.count_append, ih, List.count_cons, List.countP_cons]
    cases h : needsEscape c with
    | true =>
      rw [escapeChar_of_needsEscape h, List.count_cons, List.count_singleton]
      simp only [beq_self_eq_true, if_true]
      omega
    | false =>
      rw [escapeChar_self h, List.count_singleton]
      simp only [Bool.false_eq_true, if_false]
      omega

/-- A text is its own word if nothing in it needs a backslash. -/
theorem escapeWord_self {text : List Char} (h : ∀ c ∈ text, needsEscape c = false) :
    escapeWord text = text := by
  induction text with
  | nil => rfl
  | cons c text ih =>
    obtain ⟨first, later⟩ := List.forall_mem_cons.1 h
    rw [escapeWord_cons, escapeChar_self first, ih later]
    rfl

/-! ## Trimming -/

theorem count_trimEnd {text : List Char} {c : Char} (solid : isBlank c = false) :
    (trimEnd text).count c = text.count c := by
  obtain ⟨back, equal, blank, -⟩ := exists_trimEnd text
  have none : back.count c = 0 := by
    rw [List.count_eq_zero]
    intro member
    rw [blank c member] at solid
    cases solid
  have counts := congrArg (List.count c) equal
  rw [List.count_append, none] at counts
  exact counts.symm

/-- The trimmed word has as many backslashes as the text just when nothing was escaped. -/
theorem count_trimEnd_escapeWord_iff {text : List Char} :
    (trimEnd (escapeWord text)).count '\\' = text.count '\\' ↔
      ∀ c ∈ text, needsEscape c = false := by
  rw [count_trimEnd (by decide), count_escapeWord]
  have none : text.countP needsEscape = 0 ↔ ∀ c ∈ text, needsEscape c = false := by
    simp [List.countP_eq_zero]
  rw [← none]
  omega

/-- A text without blanks that is its own word is not trimmed. -/
theorem trimEnd_escapeWord_self {text : List Char} (h : ∀ c ∈ text, needsEscape c = false) :
    trimEnd (escapeWord text) = text := by
  rw [escapeWord_self h]
  refine trimEnd_of_getLast? fun c last => ?_
  have plain := h c (List.mem_of_getLast? last)
  simp only [needsEscape, endsWord, Bool.or_eq_false_iff] at plain
  exact plain.2.2

/-- The trimmed word is the text just when nothing was escaped. -/
theorem trimEnd_escapeWord_eq_iff {text : List Char} :
    trimEnd (escapeWord text) = text ↔ ∀ c ∈ text, needsEscape c = false := by
  refine ⟨fun same => ?_, trimEnd_escapeWord_self⟩
  rw [← count_trimEnd_escapeWord_iff, same]

/-! ## The value -/

theorem needsEscape_of_isSign {c : Char} (h : isSign c = true) : needsEscape c = false := by
  simp only [isSign, Bool.or_eq_true, decide_eq_true_eq] at h
  rcases h with rfl | rfl <;> decide

/-- The signs in front are kept, and behind them the same text goes on as a word. -/
theorem dropWhile_isSign_escapeWord (text : List Char) :
    (escapeWord text).dropWhile isSign = escapeWord (text.dropWhile isSign) := by
  induction text with
  | nil => rfl
  | cons c text ih =>
    cases sign : isSign c with
    | true =>
      rw [escapeWord_cons, escapeChar_self (needsEscape_of_isSign sign), List.singleton_append,
        List.dropWhile_cons_of_pos sign, List.dropWhile_cons_of_pos sign, ih]
    | false =>
      rw [List.dropWhile_cons_of_neg (by simp [sign]), escapeWord_cons]
      unfold escapeChar
      split
      · exact List.dropWhile_cons_of_neg (by decide)
      · exact List.dropWhile_cons_of_neg (by simp [sign])

/-- The front of a text that does not look like a number does not look like one either. -/
theorem looksNumeric_of_append {front back : List Char} (h : looksNumeric (front ++ back) = false) :
    looksNumeric front = false := by
  rw [looksNumeric_eq_false_iff] at h ⊢
  intro c head
  apply h c
  rw [List.dropWhile_append]
  cases behind : front.dropWhile isSign with
  | nil =>
    rw [behind] at head
    cases head
  | cons d rest =>
    rw [behind] at head
    simpa using head

namespace Wordlike

variable {text : List Char} (h : Wordlike text)

include h

/-- The word of the text does not begin with a comma either, nor with anything that ends words. -/
theorem exists_head : ∃ c tail, escapeWord text = c :: tail ∧ c ≠ ',' := by
  cases text with
  | nil => exact absurd rfl h.holds
  | cons c text =>
    rw [escapeWord_cons]
    unfold escapeChar
    split
    · exact ⟨'\\', c :: escapeWord text, rfl, by decide⟩
    · refine ⟨c, escapeWord text, rfl, ?_⟩
      rintro rfl
      exact h.noComma rfl

theorem escapeWord_ne_nil : escapeWord text ≠ [] := by
  obtain ⟨c, tail, spelled, -⟩ := h.exists_head
  rw [spelled]
  exact List.cons_ne_nil c tail

theorem inLine_escapeWord : ∀ c ∈ escapeWord text, isLineBreak c = false := by
  intro c member
  rcases mem_escapeWord member with rfl | inText
  · rfl
  · exact h.inLine c inText

/-- No literal has a backslash, so that the trimmed word is none unless it is the text. -/
theorem noLiteral_trimEnd :
    trimEnd (escapeWord text) ∉ ["true".toList, "false".toList, "null".toList] := by
  intro literal
  have noBackslash : (trimEnd (escapeWord text)).count '\\' = 0 := by
    simp only [List.mem_cons, List.not_mem_nil, or_false] at literal
    rcases literal with same | same | same <;> rw [same] <;> rfl
  rw [count_trimEnd (by decide), count_escapeWord] at noBackslash
  have plain : ∀ c ∈ text, needsEscape c = false := by
    have none : text.countP needsEscape = 0 := by omega
    simpa [List.countP_eq_zero] using none
  rw [trimEnd_escapeWord_self plain] at literal
  exact h.noLiteral literal

theorem noNumber_trimEnd : looksNumeric (trimEnd (escapeWord text)) = false := by
  obtain ⟨back, equal, -⟩ := exists_trimEnd (escapeWord text)
  refine @looksNumeric_of_append _ back ?_
  rw [← equal, looksNumeric_eq_false_iff, dropWhile_isSign_escapeWord]
  intro c head
  cases behind : text.dropWhile isSign with
  | nil =>
    rw [behind] at head
    cases head
  | cons d rest =>
    rw [behind, escapeWord_cons] at head
    unfold escapeChar at head
    split at head
    · cases head
      decide
    · cases head
      exact h.noNumber c (by rw [behind]; rfl)

/-- The word is decoded to itself, without the blanks at its end. -/
theorem decode_escapeWord :
    decode (String.ofList (escapeWord text)) =
      .ok (.string (String.ofList (trimEnd (escapeWord text)))) := by
  have word := word_escapeWord text
  have inLine := h.inLine_escapeWord
  have string := bareValue_eq_string h.noLiteral_trimEnd h.noNumber_trimEnd
  obtain ⟨c, tail, spelled, noComma⟩ := h.exists_head
  rw [spelled] at word inLine string ⊢
  obtain ⟨opens, bare⟩ := word.opensValue noComma
  have trimmed : trim (c :: tail) = trimEnd (c :: tail) := by
    rw [trim, trimStart_of_head]
    rintro d ⟨⟩
    exact word.solid.isBlank_eq_false
  rw [decode_eq_ok_iff, String.toList_ofList, readAll_bare opens bare inLine, trimmed, string]

end Wordlike

/-! ## The call -/

/-- A word behind a name is the second token of a call. -/
theorem Input.tokenize_say {word : List Char} (h : Word word) (holds : word ≠ []) :
    tokenize ("say " ++ String.ofList word) = .ok [["say", String.ofList word]] := by
  have say : readWord "say".toList = .ok ("say".toList, []) := by rfl
  have stands : Stands endsWord "say".toList := (word_of_readWord say).1.stands
  obtain ⟨c, tail, rfl⟩ := List.exists_cons_of_ne_nil holds
  have stand : Stand ["say".toList, c :: tail] :=
    .cons stands (.cons h.stands trivial)
  have read := @tokenize_call_of_stand ["say", String.ofList (c :: tail)] (List.cons_ne_nil _ _)
    (by simpa using stand)
  rwa [String.intercalate_cons_cons, String.intercalate_singleton] at read

variable {σ N : Type}

/-- The command with one argument binds it to the word. -/
theorem exists_call_say {word : List Char} (h : Word word) (holds : word ≠ []) (name : N) :
    ∃ command : Command σ N, Command.define name "say {x}" = .ok command ∧
      ∃ resolution, resolveSingle ("say " ++ String.ofList word) [command] = .ok resolution ∧
        resolution.call.argument "x" = (decode (String.ofList word)).mapError (.invalid "x") := by
  let say : Command σ N := ⟨name, [.literal ["say"] false, .argument "x"], none, none⟩
  have compiled : compile "say {x}" = .ok say.grammar := by
    cbv
  have defined : Command.define name "say {x}" = .ok say := by
    rw [Command.define, compiled]
    rfl
  let found : Match := ⟨2, Bindings.empty.insert "x" (String.ofList word)⟩
  have fits : say.match? ["say", String.ofList word] = some found := rfl
  have bound : (Resolution.call ⟨say, found⟩).rawArgument? "x" = some (String.ofList word) :=
    rfl
  exact ⟨say, defined, ⟨say, found⟩, resolveSingle_singleton (tokenize_say h holds) fits rfl,
    Call.argument_of_rawArgument? bound⟩

/-- **Escapes.** A text that looks like nothing but a string is one token when it is spelled as a
plain word, and the argument that is bound to the token is the spelling, without the blanks at its
end. It is the text itself just when nothing in the text needs a backslash. -/
theorem argument_escaped {text : String} (h : Wordlike text.toList) (name : N) :
    tokenizeSingle ("say " ++ asWord text) = .ok ["say", asWord text] ∧
    ∃ command : Command σ N, Command.define name "say {x}" = .ok command ∧
      ∃ resolution, resolveSingle ("say " ++ asWord text) [command] = .ok resolution ∧
        resolution.call.argument "x" =
          .ok (.string (String.ofList (trimEnd (escapeWord text.toList)))) ∧
        (resolution.call.argument "x" = .ok (.string text) ↔
          ∀ c ∈ text.toList, needsEscape c = false) := by
  have isWord := word_escapeWord text.toList
  have holds := h.escapeWord_ne_nil
  obtain ⟨say, defined, resolution, resolves, isArgument⟩ :=
    @exists_call_say σ N (escapeWord text.toList) isWord holds name
  have argument : resolution.call.argument "x" =
      .ok (.string (String.ofList (trimEnd (escapeWord text.toList)))) := by
    rw [isArgument, h.decode_escapeWord]
    rfl
  have read := tokenizeSingle_of_tokenize (tokenize_say isWord holds)
  refine ⟨read, say, defined, resolution, resolves, argument, ?_⟩
  rw [argument, Except.ok.injEq, Value.string.injEq, ← String.toList_inj, String.toList_ofList,
    trimEnd_escapeWord_eq_iff]

/-- The blank at the end is trimmed, and the backslashes stay. -/
theorem argument_escaped_blank :
    Wordlike "-x; ".toList ∧ tokenizeSingle "say -x\\;\\ " = .ok ["say", "-x\\;\\ "] ∧
      ∃ command : Command Unit String, Command.define "say" "say {x}" = .ok command ∧
        ∃ resolution, resolveSingle "say -x\\;\\ " [command] = .ok resolution ∧
          resolution.call.argument "x" = .ok (.string "-x\\;\\") := by
  have wordlike : Wordlike "-x; ".toList :=
    ⟨by simp, by simp [isLineBreak], by simp, by simp, by simp [isSign]⟩
  have word : asWord "-x; " = "-x\\;\\ " := by
    decide
  have trimmed : String.ofList (trimEnd (escapeWord "-x; ".toList)) = "-x\\;\\" := by
    decide
  have escaped := @argument_escaped Unit String "-x; " wordlike "say"
  rw [word, trimmed] at escaped
  obtain ⟨read, say, defined, resolution, resolves, argument, -⟩ := escaped
  exact ⟨wordlike, read, say, defined, resolution, resolves, argument⟩

/-- The argument for a text of two words is not the text. -/
theorem argument_escaped_ne :
    Wordlike "a b".toList ∧
      ∃ command : Command Unit String, Command.define "say" "say {x}" = .ok command ∧
        ∃ resolution, resolveSingle "say a\\ b" [command] = .ok resolution ∧
          resolution.call.argument "x" = .ok (.string "a\\ b") ∧
          resolution.call.argument "x" ≠ .ok (.string "a b") := by
  have wordlike : Wordlike "a b".toList :=
    ⟨by simp, by simp [isLineBreak], by simp, by simp, by simp [isSign]⟩
  have word : String.ofList (escapeWord "a b".toList) = "a\\ b" := by
    decide
  have trimmed : String.ofList (trimEnd (escapeWord "a b".toList)) = "a\\ b" := by
    decide
  have called := @exists_call_say Unit String _ (word_escapeWord _) wordlike.escapeWord_ne_nil "say"
  rw [wordlike.decode_escapeWord, word, trimmed] at called
  obtain ⟨say, defined, resolution, resolves, argument⟩ := called
  refine ⟨wordlike, say, defined, resolution, resolves, argument, ?_⟩
  rw [argument]
  simp [Except.mapError]

end Phrasebook
