import Phrasebook.Proofs.Command.Arguments
import Phrasebook.Proofs.Input.Respelling
import Phrasebook.Proofs.Value.Span

/-!
# Which tokens decode

A token is cut out of its text and decoded later, from its beginning to its end. For a structured
value nothing changes, as it was measured by reading it. A word has not been read as a value before.
It spells a bare value, which cannot begin with a comma and goes up to a line break; a line break
belongs to a word where it is escaped, and then what stands behind it is left over.

So a word spells a value unless it begins with a comma or has a line break in front of its last
character (`exists_readAll_word_iff`), and every other token does: `tokens_decode`, which also says
what follows for the arguments of calls and for the program, where tokens that do not decode are
shown as they are.
-/

namespace Phrasebook

open Phrasebook.Text Phrasebook.Value Phrasebook.Input

/-! ## Words as values -/

namespace Input

/-- A character that would end the word is escaped, and the word goes on behind it. -/
theorem Word.of_append_cons {front back : List Char} {b : Char} (h : Word (front ++ b :: back))
    (ends : endsWord b = true) : front.getLast? = some '\\' ∧ Word back := by
  generalize whole : front ++ b :: back = word at h
  induction h generalizing front with
  | nil => simp at whole
  | @plain c word plain stays _ ih =>
    cases front with
    | nil =>
      obtain ⟨rfl, -⟩ := List.cons.inj whole
      rw [ends] at stays
      cases stays
    | cons d front =>
      obtain ⟨-, later⟩ := List.cons.inj whole
      obtain ⟨last, isWord⟩ := ih later
      exact ⟨getLast?_cons_eq_some d last, isWord⟩
  | @escape c word isWord ih =>
    match front with
    | [] =>
      obtain ⟨rfl, -⟩ := List.cons.inj whole
      exact absurd ends (by decide)
    | [d] =>
      obtain ⟨rfl, later⟩ := List.cons.inj whole
      obtain ⟨-, rfl⟩ := List.cons.inj later
      exact ⟨rfl, isWord⟩
    | d :: e :: front =>
      obtain ⟨-, later⟩ := List.cons.inj whole
      obtain ⟨last, isWord⟩ := ih (List.cons.inj later).2
      exact ⟨getLast?_append_eq_some [d, e] last, isWord⟩

/-- A line break in a word stands behind a backslash. -/
theorem Word.infix_of_mem {word : List Char} (h : Word word) {b : Char} (member : b ∈ word)
    (breaks : isLineBreak b = true) : ['\\', b] <:+: word := by
  obtain ⟨front, back, rfl⟩ := List.append_of_mem member
  obtain ⟨front, rfl⟩ :=
    List.getLast?_eq_some_iff.1 (h.of_append_cons (endsWord_of_isLineBreak b breaks)).1
  exact ⟨front, back, by simp⟩

/-- What a word begins with is no blank and no comment. -/
theorem Word.solid {c : Char} {tail : List Char} (h : Word (c :: tail)) : Solid (c :: tail) := by
  have stays := h.endsWord_eq_false
  simp only [endsWord, startsValue, Bool.or_eq_false_iff, decide_eq_false_iff_not] at stays
  exact solid_cons tail stays.2 stays.1.1.2 stays.1.1.1.2

/-- Unless it is a comma, it begins a bare value. -/
theorem Word.opensValue {c : Char} {tail : List Char} (h : Word (c :: tail)) (comma : c ≠ ',') :
    Value.opensValue c = true ∧ closesItself c = false := by
  have stays := h.endsWord_eq_false
  simp only [endsWord, startsValue, Bool.or_eq_false_iff, decide_eq_false_iff_not] at stays
  simp [Value.opensValue, closesItself, stays, comma]

end Input

/-- A text spells a value if there is nothing but blanks and comments behind the value in front. -/
theorem exists_readAll_iff_skipTrivia {text rest : List Char} {value : Value}
    (h : readElement false text = .ok (value, rest)) :
    (∃ found, readAll text = .ok found) ↔ skipTrivia rest = .ok [] := by
  unfold readAll
  simp only [h]
  split <;> simp_all

/-- No value begins with a comma. -/
theorem readAll_comma (tail : List Char) :
    readAll (',' :: tail) = .error ⟨.unexpectedCharacter ',', ',' :: tail⟩ := by
  have solid : Solid (',' :: tail) := solid_cons tail (by decide) (by decide) (by decide)
  rw [readAll, readElement_eq, skipTrivia_of_solid solid]
  rfl

/-- Behind the first line break of a word nothing may be left. -/
theorem Input.Word.skipTrivia_eq_nil_iff {front rest : List Char} (h : Word (front ++ rest))
    (stops : Stops isLineBreak rest) : skipTrivia rest = .ok [] ↔ rest.length ≤ 1 := by
  match rest with
  | [] => exact iff_of_true rfl (Nat.zero_le 1)
  | b :: back =>
    have breaks : isLineBreak b = true := stops b rfl
    have blank : Trivia [b] := .blank (isBlank_of_isLineBreak breaks) .nil
    have skipped : skipTrivia (b :: back) = skipTrivia back := blank.skipTrivia_append back
    have later : Word back := (h.of_append_cons (endsWord_of_isLineBreak b breaks)).2
    rw [skipped]
    cases back with
    | nil => exact iff_of_true rfl (Nat.le_refl 1)
    | cons d back =>
      rw [skipTrivia_of_solid later.solid]
      simp

/-- A word spells a value unless it begins with a comma or has a line break in front of its last
character. -/
theorem exists_readAll_word_iff {c : Char} {tail : List Char} (h : Word (c :: tail)) :
    (∃ value, readAll (c :: tail) = .ok value) ↔
      c ≠ ',' ∧ ∀ b ∈ (c :: tail).dropLast, isLineBreak b = false := by
  by_cases comma : c = ','
  · subst comma
    rw [readAll_comma]
    simp
  · obtain ⟨opens, bare⟩ := h.opensValue comma
    obtain ⟨front, rest, rfl, inBare, stops⟩ := exists_bare false tail
    have first := endsBare_of_opensValue opens false
    have read := readElement_bare opens bare (List.forall_mem_cons.2 ⟨first, inBare⟩) stops
    rw [endsBare_false] at first inBare stops
    have inLine : ∀ d ∈ c :: front, isLineBreak d = false := List.forall_mem_cons.2 ⟨first, inBare⟩
    rw [exists_readAll_iff_skipTrivia read, and_iff_right comma]
    rw [← List.cons_append] at h ⊢
    rw [h.skipTrivia_eq_nil_iff stops]
    match rest with
    | [] =>
      rw [List.append_nil]
      exact iff_of_true (Nat.zero_le 1) fun b member => inLine b (List.dropLast_subset _ member)
    | [b] =>
      rw [List.dropLast_concat]
      exact iff_of_true (Nat.le_refl 1) inLine
    | b :: d :: back =>
      -- the first line break has something behind it
      refine iff_of_false (by simp) fun none => ?_
      have breaks : isLineBreak b = true := stops b rfl
      have member : b ∈ (c :: front ++ b :: d :: back).dropLast := by
        rw [List.dropLast_append_of_ne_nil (by simp)]
        simp
      rw [none b member] at breaks
      cases breaks

/-! ## Tokens -/

namespace Input

/-- Where a structured value begins, the first token is the text that it takes. -/
theorem exists_readElement_of_lexemes {c : Char} {tail : List Char} {found : List Lexeme}
    (starts : startsValue c = true) (h : lexemes (c :: tail) = .ok found) :
    ∃ value rest more, readElement false (c :: tail) = .ok (value, rest) ∧
      found = .token ((c :: tail).take (tail.length + 1 - rest.length)) :: more := by
  rw [lexemes_cons, if_pos starts] at h
  cases read : readElement false (c :: tail) with
  | error fault =>
    rw [read] at h
    cases h
  | ok result =>
    obtain ⟨value, rest⟩ := result
    simp only [read] at h
    cases behind : lexemes rest with
    | error fault =>
      rw [behind] at h
      cases h
    | ok more =>
      rw [behind] at h
      exact ⟨value, rest, more, rfl, (Except.ok.inj h).symm⟩

/-- Where a word begins, the first token is the word. -/
theorem exists_readWord_of_lexemes {c : Char} {tail : List Char} {found : List Lexeme}
    (stays : endsWord c = false) (h : lexemes (c :: tail) = .ok found) :
    ∃ word rest more, readWord (c :: tail) = .ok (word, rest) ∧ found = .token word :: more := by
  simp only [endsWord, Bool.or_eq_false_iff] at stays
  obtain ⟨⟨starts, separator⟩, blank⟩ := stays
  rw [lexemes_cons, if_neg (by simp [starts]), if_neg (by simp [separator]),
    if_neg (by simp [blank])] at h
  cases read : readWord (c :: tail) with
  | error fault =>
    rw [read] at h
    cases h
  | ok result =>
    obtain ⟨word, rest⟩ := result
    simp only [read] at h
    cases behind : lexemes rest with
    | error fault =>
      rw [behind] at h
      cases h
    | ok more =>
      rw [behind] at h
      exact ⟨word, rest, more, rfl, (Except.ok.inj h).symm⟩

/-- A token is a word or, if it begins as structured values do, the text of a value. -/
theorem Stands.word_or_value {before : Char → Bool} {token : List Char} (h : Stands before token) :
    ∃ c tail, token = c :: tail ∧
      (startsValue c = false ∧ Word (c :: tail) ∨
        startsValue c = true ∧ ∃ value, readElement false (c :: tail) = .ok (value, [])) := by
  obtain ⟨c, tail, rfl, separator, blank⟩ := h.exists_head
  refine ⟨c, tail, rfl, ?_⟩
  have alone := h.lexemes_eq
  cases starts : startsValue c with
  | true =>
    obtain ⟨value, rest, more, read, same⟩ := exists_readElement_of_lexemes starts alone
    have shorter := length_lt_of_readElement read
    -- the token is all of the text, so that nothing is left
    have whole := congrArg List.length (Lexeme.token.inj (List.cons.inj same).1)
    rw [List.length_take, List.length_cons] at whole
    have empty : rest = [] := List.eq_nil_of_length_eq_zero (by omega)
    exact .inr ⟨rfl, value, by rw [read, empty]⟩
  | false =>
    have stays : endsWord c = false := by
      rw [endsWord, starts, separator, blank]
      rfl
    obtain ⟨word, rest, more, read, same⟩ := exists_readWord_of_lexemes stays alone
    rw [Lexeme.token.inj (List.cons.inj same).1]
    exact .inl ⟨rfl, (word_of_readWord read).1⟩

end Input

/-- A plain word: a token that does not begin as structured values do. -/
def IsPlain (token : String) : Prop :=
  ∀ c ∈ token.toList.head?, startsValue c = false

/-- A plain word that begins with a comma or holds a backslash in front of a line break. -/
def Doubtful (token : String) : Prop :=
  IsPlain token ∧
    (token.toList.head? = some ',' ∨ ∃ b, isLineBreak b = true ∧ ['\\', b] <:+: token.toList)

/-- Whether a token decodes can be told from its text. -/
structure Legible (token : String) : Prop where
  /-- It does unless it is a plain word that begins with a comma or escapes a line break. -/
  decodes : ¬ Doubtful token → ∃ value, decode token = .ok value
  /-- Words of the first kind never do. -/
  comma : IsPlain token → token.toList.head? = some ',' → ∃ fault, decode token = .error fault
  /-- Words of the second kind do just when their only line break is the last character. -/
  lineBreak : IsPlain token → token.toList.head? ≠ some ',' →
    ((∃ value, decode token = .ok value) ↔ ∀ b ∈ token.toList.dropLast, isLineBreak b = false)

/-- Tokens of a text are legible. -/
theorem Input.Stands.legible {before : Char → Bool} {token : String}
    (h : Stands before token.toList) : Legible token := by
  obtain ⟨c, tail, spelled, ⟨plain, word⟩ | ⟨starts, value, read⟩⟩ := h.word_or_value
  · have decodes := exists_readAll_word_iff word
    rw [← spelled] at decodes word
    simp only [← decode_eq_ok_iff] at decodes
    have isPlain : IsPlain token := by
      rw [IsPlain, spelled]
      rintro d ⟨⟩
      exact plain
    have head : token.toList.head? = some c := by rw [spelled]; rfl
    refine ⟨fun clear => ?_, fun _ comma => ?_, fun _ comma => ?_⟩
    · refine decodes.2 ⟨?_, fun b member => ?_⟩
      · rintro rfl
        exact clear ⟨isPlain, .inl head⟩
      · rw [← Bool.not_eq_true]
        intro breaks
        have escaped := word.infix_of_mem (List.dropLast_subset _ member) breaks
        exact clear ⟨isPlain, .inr ⟨b, breaks, escaped⟩⟩
    · cases decoded : decode token with
      | error fault => exact ⟨fault, rfl⟩
      | ok value =>
        rw [head, Option.some.injEq] at comma
        exact absurd comma (decodes.1 ⟨value, decoded⟩).1
    · rw [decodes, and_iff_right]
      rintro rfl
      exact comma head
  · have decoded : decode token = .ok value := by
      rw [decode_eq_ok_iff, spelled, readAll, read]
      rfl
    have notPlain : ¬ IsPlain token := by
      intro plain
      rw [plain c (by rw [spelled]; rfl)] at starts
      cases starts
    exact ⟨fun _ => ⟨value, decoded⟩, fun plain => absurd plain notPlain,
      fun plain => absurd plain notPlain⟩

/-! ## Calls -/

variable {σ N : Type}

/-- What an input resolves to, one way or another. -/
inductive ResolvesTo (input : String) (commands : List (Command σ N)) : Resolution σ N → Prop
  | all {resolutions : List (Resolution σ N)} {resolution : Resolution σ N} :
    resolveInput input commands = .ok resolutions → resolution ∈ resolutions →
    ResolvesTo input commands resolution
  | single {resolution : Resolution σ N} :
    resolveSingle input commands = .ok resolution → ResolvesTo input commands resolution
  | candidate {resolutions : List (Resolution σ N)} {resolution : Resolution σ N} :
    findInputMatches input commands = .ok resolutions → resolution ∈ resolutions →
    ResolvesTo input commands resolution

theorem exists_of_resolveCalls {commands : List (Command σ N)} {calls : List (List String)}
    {resolutions : List (Resolution σ N)} (h : resolveCalls commands calls = .ok resolutions)
    {resolution : Resolution σ N} (member : resolution ∈ resolutions) :
    ∃ tokens ∈ calls, resolve tokens commands = some resolution := by
  induction resolveCalls_eq_ok_iff.1 h with
  | nil => cases member
  | @cons tokens first calls others resolves related ih =>
    rcases List.mem_cons.1 member with rfl | later
    · exact ⟨tokens, List.mem_cons_self, resolves⟩
    · obtain ⟨found, isCall, fits⟩ := ih (resolveCalls_eq_ok_iff.2 related) later
      exact ⟨found, List.mem_cons_of_mem tokens isCall, fits⟩

theorem exists_of_findInputMatches {input : String} {commands : List (Command σ N)}
    {resolutions : List (Resolution σ N)} (h : findInputMatches input commands = .ok resolutions)
    {resolution : Resolution σ N} (member : resolution ∈ resolutions) :
    ∃ tokens, tokenize input = .ok [tokens] ∧
      Grammar.match? tokens resolution.command.grammar = some resolution.found := by
  rw [findInputMatches, tokenizeSingle] at h
  cases read : tokenize input with
  | error fault => simp [read] at h
  | ok calls =>
    rcases calls with _ | ⟨tokens, _ | ⟨next, more⟩⟩
    · simp [read] at h
    · simp only [read, Except.ok.injEq] at h
      subst h
      obtain ⟨command, -, fits⟩ := List.mem_filterMap.1 member
      obtain ⟨rfl, matched, -⟩ := Command.of_fullMatch? fits
      exact ⟨tokens, rfl, matched⟩
    · simp [read] at h

/-- Whichever way it is found, a resolution is a match of one of the calls of the input. -/
theorem ResolvesTo.exists_tokens {input : String} {commands : List (Command σ N)}
    {resolution : Resolution σ N} (h : ResolvesTo input commands resolution) :
    ∃ calls, tokenize input = .ok calls ∧ ∃ tokens ∈ calls,
      Grammar.match? tokens resolution.command.grammar = some resolution.found := by
  cases h with
  | @all resolutions _ resolves member =>
    rw [resolveInput] at resolves
    cases read : tokenize input with
    | error fault => simp [read] at resolves
    | ok calls =>
      simp only [read] at resolves
      obtain ⟨tokens, isCall, fits⟩ := exists_of_resolveCalls resolves member
      exact ⟨calls, rfl, tokens, isCall, (of_resolve fits).2⟩
  | single resolves =>
    obtain ⟨found, lists, first⟩ := resolveSingle_eq_ok_iff.1 resolves
    obtain ⟨tokens, read, fits⟩ := exists_of_findInputMatches lists (List.mem_of_mem_head? first)
    exact ⟨_, read, tokens, List.mem_singleton_self _, fits⟩
  | candidate lists member =>
    obtain ⟨tokens, read, fits⟩ := exists_of_findInputMatches lists member
    exact ⟨_, read, tokens, List.mem_singleton_self _, fits⟩

/-- What is bound in a resolution is a token of the input. -/
theorem ResolvesTo.legible {input : String} {commands : List (Command σ N)}
    {resolution : Resolution σ N} (h : ResolvesTo input commands resolution) {name raw : String}
    (bound : resolution.call.rawArgument? name = some raw) : Legible raw := by
  obtain ⟨calls, read, tokens, isCall, fits⟩ := h.exists_tokens
  have spoken := (reliable_of_match? fits).spoken name raw bound
  exact ((stand_of_tokenize read tokens isCall).2.last_of_mem raw.toList
    (List.mem_map_of_mem spoken)).legible

/-! ## The program -/

/-- What the program shows for a token: its value or, for some that have none, the token itself. -/
def Shows (raw : String) (value : Value) : Prop :=
  decode raw = .ok value ∨
    Doubtful raw ∧ (∃ fault, decode raw = .error fault) ∧ value = .string raw

theorem exists_of_resolvedCalls {input : String} {all : Bool}
    {commands : List (Command Unit String)} {calls : List (Call String)}
    (h : CommandLine.resolvedCalls input all commands = .ok calls) :
    ∀ call ∈ calls, ∃ resolution,
      ResolvesTo input commands resolution ∧ resolution.call = call := by
  intro call member
  unfold CommandLine.resolvedCalls at h
  cases all with
  | true =>
    cases lists : findInputMatches input commands with
    | error failure => simp [lists] at h
    | ok resolutions =>
      cases resolutions with
      | nil => simp [lists] at h
      | cons first others =>
        simp only [lists, if_true, Except.ok.injEq] at h
        subst h
        obtain ⟨resolution, isListed, rfl⟩ := List.mem_map.1 member
        exact ⟨resolution, .candidate lists isListed, rfl⟩
  | false =>
    cases resolves : resolveInput input commands with
    | error failure => simp [resolves] at h
    | ok resolutions =>
      simp only [resolves, Bool.false_eq_true, if_false, Except.ok.injEq] at h
      subst h
      obtain ⟨resolution, isListed, rfl⟩ := List.mem_map.1 member
      exact ⟨resolution, .all resolves isListed, rfl⟩

/-- The program shows the arguments of a call under their names, in order. -/
theorem shows_decodedArguments {call : Call String}
    (h : ∀ name raw, call.rawArgument? name = some raw → Legible raw) :
    List.Forall₂ (fun entry shown => shown.1 = entry.1 ∧ Shows entry.2 shown.2)
      call.arguments.entries (CommandLine.decodedArguments call) := by
  unfold CommandLine.decodedArguments
  rw [List.forall₂_map_right_iff, List.forall₂_same]
  rintro ⟨name, raw⟩ member
  have bound : call.rawArgument? name = some raw := Bindings.get?_of_mem member
  refine ⟨rfl, ?_⟩
  simp only [Call.tryArgument?, Call.argument_of_rawArgument? bound]
  cases decoded : decode raw with
  | ok value => exact .inl decoded
  | error fault =>
    refine .inr ⟨?_, ⟨fault, decoded⟩, rfl⟩
    by_contra clear
    obtain ⟨value, decodes⟩ := (h name raw bound).decodes clear
    rw [decoded] at decodes
    cases decodes

/-- **Tokens decode.** Every token of an input spells a value, unless it is a plain word that begins
with a comma or escapes a line break; in the first case it never does. So to ask for an argument
that is bound fails in these cases only, and so does the program show a token instead of its value.
-/
theorem tokens_decode {input : String} {found : List (List String)}
    (h : tokenize input = .ok found) (commands : List (Command σ N)) :
    (∀ call ∈ found, ∀ token ∈ call, Legible token) ∧
    (∀ resolution, ResolvesTo input commands resolution → ∀ name raw,
      resolution.call.rawArgument? name = some raw →
        Legible raw ∧ resolution.call.argument name = (decode raw).mapError (.invalid name) ∧
          ((∃ value, resolution.call.argument name = .ok value) ∨ Doubtful raw)) ∧
    ∀ (all : Bool) (known : List (Command Unit String)) (calls : List (Call String)),
      CommandLine.resolvedCalls input all known = .ok calls → ∀ call ∈ calls,
        List.Forall₂ (fun entry shown => shown.1 = entry.1 ∧ Shows entry.2 shown.2)
          call.arguments.entries (CommandLine.decodedArguments call) := by
  refine ⟨fun call isCall token member => ?_, fun resolution resolves name raw bound => ?_,
    fun all known calls resolves call member => ?_⟩
  · have stand := (stand_of_tokenize h call isCall).2
    exact (stand.last_of_mem token.toList (List.mem_map_of_mem member)).legible
  · have legible := resolves.legible bound
    have argument := Call.argument_of_rawArgument? bound
    refine ⟨legible, argument, ?_⟩
    by_cases doubtful : Doubtful raw
    · exact .inr doubtful
    · obtain ⟨value, decodes⟩ := legible.decodes doubtful
      exact .inl ⟨value, by rw [argument, decodes]; rfl⟩
  · obtain ⟨resolution, isResolved, rfl⟩ := exists_of_resolvedCalls resolves call member
    exact shows_decodedArguments fun name raw bound => isResolved.legible bound

/-- A word that begins with a comma spells no value, and an object does. Of two words that escape a
line break one spells a value. -/
theorem tokens_decode_say :
    tokenize "say ,a {k: 1} a\\\nb a\\\n" = .ok [["say", ",a", "{k: 1}", "a\\\nb", "a\\\n"]] ∧
      (∃ fault, decode ",a" = .error fault) ∧ (∃ value, decode "{k: 1}" = .ok value) ∧
      (¬ ∃ value, decode "a\\\nb" = .ok value) ∧ ∃ value, decode "a\\\n" = .ok value := by
  have read : tokenize "say ,a {k: 1} a\\\nb a\\\n" =
      .ok [["say", ",a", "{k: 1}", "a\\\nb", "a\\\n"]] := by
    simp [tokenize, readCalls, lexemes_cons, lexemes_nil, startsValue, separates, isLineBreak,
      isBlank, readWord, endsWord, readElement_eq, skipTrivia, readMembers_eq, readName,
      readNameChars_cons, breaksName, readBare, endsBare, trimEnd, calls, splitCalls, consToken,
      Except.map]
  have legible :=
    (tokens_decode read ([] : List (Command Unit String))).1 _ (List.mem_singleton_self _)
  have plain : ∀ token ∈ [",a", "a\\\nb", "a\\\n"], IsPlain token := by
    simp [IsPlain, startsValue]
  refine ⟨read, (legible ",a" (by simp)).comma (plain _ (by simp)) rfl,
    (legible "{k: 1}" (by simp)).decodes ?_, ?_, ?_⟩
  · rintro ⟨plain, -⟩
    exact absurd (plain '\x7b' rfl) (by decide)
  · rw [(legible "a\\\nb" (by simp)).lineBreak (plain _ (by simp)) (by simp)]
    simp [isLineBreak]
  · rw [(legible "a\\\n" (by simp)).lineBreak (plain _ (by simp)) (by simp)]
    simp [isLineBreak]

end Phrasebook
