import Phrasebook.Failure
import Phrasebook.Proofs.Input.Tokens

/-!
# Where an input cannot be read

An input that has no calls has a place where reading stops: a backslash that escapes nothing, or the
beginning of a structured value that is malformed (`Stuck`). The text in front of this place is divided into
lexemes by itself, since a token that ends in the whole text ends there as well
(`exists_front_of_lexemes`). `tokenize_fault_located` says that the failure names the place, by its line and
column, and what is wrong there.
-/

namespace Phrasebook.Input

open Phrasebook.Text Phrasebook.Value

/-- What stands where a text cannot be divided further: a backslash at its end, or a structured value that
is not one. -/
inductive Stuck : LexemeCause → List Char → Prop
  | escape : Stuck .incompleteEscape ['\\']
  | value {c : Char} {tail : List Char} {fault : Fault} :
    startsValue c = true → readElement false (c :: tail) = .error fault →
    Stuck (.malformedValue fault.cause) (c :: tail)

/-! ## The text in front -/

/-- A word that cannot be read ends with a backslash that escapes nothing. -/
theorem exists_word_of_readWord {text : List Char} {fault : LexemeFault}
    (h : readWord text = .error fault) :
    ∃ word, Word word ∧ text = word ++ ['\\'] ∧ fault = ⟨.incompleteEscape, ['\\']⟩ := by
  fun_induction readWord text with
  | case1 => cases h
  | case2 =>
    cases h
    exact ⟨[], .nil, rfl, rfl⟩
  | case3 => cases h
  | case4 => cases h
  | case5 d text fault' read ih =>
    cases h
    obtain ⟨word, isWord, rfl, same⟩ := ih read
    exact ⟨'\\' :: d :: word, .escape isWord, rfl, same⟩
  | case6 => cases h
  | case7 => cases h
  | case8 c d text plain stays fault' read ih =>
    cases h
    obtain ⟨word, isWord, equal, same⟩ := ih read
    exact ⟨c :: word, .plain plain (by simpa using stays) isWord, by rw [equal]; rfl, same⟩
  | case9 => cases h

theorem lexemes_word {word : List Char} (h : Word word) : ∃ found, lexemes word = .ok found := by
  cases word with
  | nil => exact ⟨[], lexemes_nil⟩
  | cons c word => exact ⟨_, h.stands.lexemes_eq⟩

/-- A token that ends in front of a text ends in front of every beginning of it. -/
theorem Stands.exists_lexemes {before : Char → Bool} {token front back : List Char}
    {found : List Lexeme} (h : Stands before token) (stops : Stops before (front ++ back))
    (read : lexemes front = .ok found) :
    lexemes (token ++ front) = .ok (.token token :: found) := by
  have ends : Stops before front := by
    cases front with
    | nil => exact stops_nil before
    | cons c front => exact stops
  rw [h front ends, read]
  rfl

/-- In front of the place where a text cannot be divided further, it is divided into lexemes. -/
theorem exists_front_of_lexemes {text : List Char} {fault : LexemeFault}
    (h : lexemes text = .error fault) :
    ∃ front found, text = front ++ fault.remaining ∧ lexemes front = .ok found ∧
      Stuck fault.cause fault.remaining := by
  fun_induction lexemes text with
  | case1 => cases h
  | case2 c tail starts inner taken =>
    cases h
    exact ⟨[], [], rfl, lexemes_nil, .value starts taken⟩
  | case3 c tail starts value rest taken _ fault' read ih =>
    cases h
    obtain ⟨before, token, equal, stands, stops, -⟩ := exists_token_of_readElement starts taken
    obtain ⟨front, found, rfl, inFront, stuck⟩ := ih read
    refine ⟨token ++ front, _, ?_, stands.exists_lexemes stops inFront, stuck⟩
    rw [equal, List.append_assoc]
  | case4 => cases h
  | case5 c tail starts separates fault' read ih =>
    cases h
    obtain ⟨front, found, rfl, inFront, stuck⟩ := ih read
    refine ⟨c :: front, .separator :: found, rfl, ?_, stuck⟩
    rw [lexemes_separator separates, inFront]
    rfl
  | case6 => cases h
  | case7 c tail starts separates blank ih =>
    obtain ⟨front, found, rfl, inFront, stuck⟩ := ih h
    refine ⟨c :: front, found, rfl, ?_, stuck⟩
    rw [lexemes_blank blank (by simpa using separates), inFront]
  | case8 c tail starts separates blank fault' word =>
    cases h
    -- The token in front of the backslash is a word of its own.
    obtain ⟨front, isWord, equal, rfl⟩ := exists_word_of_readWord word
    obtain ⟨found, inFront⟩ := lexemes_word isWord
    exact ⟨front, found, equal, inFront, .escape⟩
  | case9 c tail starts separates blank token rest word _ fault' read ih =>
    cases h
    have holds := ne_nil_of_readWord (by simp [endsWord, starts, separates, blank]) word
    obtain ⟨isWord, equal, stops⟩ := word_of_readWord word
    obtain ⟨front, found, rfl, inFront, stuck⟩ := ih read
    obtain ⟨d, token, rfl⟩ := List.exists_cons_of_ne_nil holds
    refine ⟨d :: token ++ front, _, ?_, isWord.stands.exists_lexemes stops inFront, stuck⟩
    rw [equal, List.append_assoc]
  | case10 => cases h

/-! ## The place in the message -/

theorem exists_tokenize_of_lexemes {text : List Char} {found : List Lexeme}
    (h : lexemes text = .ok found) : ∃ calls, tokenize (String.ofList text) = .ok calls := by
  rw [tokenize, readCalls, String.toList_ofList, h]
  exact ⟨_, rfl⟩

/-- A malformed value has no length. -/
theorem elementLength_of_error {text : List Char} {fault : Fault}
    (h : readElement false text = .error fault) :
    ∃ e, elementLength (String.ofList text) = .error e ∧ e.message = fault.cause.message := by
  rw [elementLength, String.toList_ofList, h]
  exact ⟨_, rfl, rfl⟩

/-- The place of a fault is the one behind the text in front of it. -/
theorem within_append (fault : LexemeFault) (front : List Char) :
    fault.within (front ++ fault.remaining) = .lexeme fault.cause (.after front) := by
  have length : (front ++ fault.remaining).length - fault.remaining.length = front.length := by
    rw [List.length_append]
    omega
  rw [LexemeFault.within, length, List.take_left]

/-- A place is shown by the number of line feeds in front of it and of the characters behind the last of
them. -/
theorem render_after (front : List Char) :
    (Position.after front).render =
      toString (1 + front.count '\n') ++ ":" ++
        toString (1 + (front.reverse.takeWhile (· ≠ '\n')).length) := by
  rw [Position.render, Position.line_after, Position.column_after]

/-- A failure that points at the place in an input behind `front`, where `back` begins. -/
structure PointsAt (input : String) (failure : Failure) (front back : List Char) : Prop where
  spelled : input.toList = front ++ back
  /-- What stands in front of the place is an input with calls. -/
  reads : ∃ calls, tokenize (String.ofList front) = .ok calls
  /-- The message says what is wrong at the place, and ends with its line and column. At the place stands
  either a backslash, the last character of the input, or the first character of a structured value that is
  malformed. -/
  tells : ∃ cause,
    failure.message = cause ++ " at " ++ (toString (1 + front.count '\n') ++ ":" ++
      toString (1 + (front.reverse.takeWhile (· ≠ '\n')).length)) ∧
    ((back = ['\\'] ∧ cause = "Incomplete escape sequence: `\\`") ∨
      (∃ c tail, back = c :: tail ∧ startsValue c = true) ∧
        ∃ e, elementLength (String.ofList back) = .error e ∧ e.message = cause)

/-- **Faults are located.** An input that has no calls is a fault of the call, and the failure points at a
place in it: everything in front of the place is in order. -/
theorem tokenize_fault_located {input : String} {fault : InputFault}
    (h : tokenize input = .error fault) :
    (Failure.input fault).kind = .callSyntax ∧
      ∃ front back, PointsAt input (.input fault) front back := by
  refine ⟨rfl, ?_⟩
  rw [tokenize, readCalls] at h
  cases read : lexemes input.toList with
  | ok found => rw [read] at h; cases h
  | error lexemeFault =>
    rw [read] at h
    obtain ⟨front, found, equal, inFront, stuck⟩ := exists_front_of_lexemes read
    obtain rfl : lexemeFault.within input.toList = fault := Except.error.inj h
    refine ⟨front, lexemeFault.remaining, equal, exists_tokenize_of_lexemes inFront, ?_⟩
    rw [equal, within_append, ← render_after]
    generalize lexemeFault.cause = cause, lexemeFault.remaining = back at stuck
    cases stuck with
    | escape => exact ⟨_, rfl, .inl ⟨rfl, rfl⟩⟩
    | @value c tail valueFault starts malformed =>
      exact ⟨_, rfl, .inr ⟨⟨c, tail, rfl, starts⟩, elementLength_of_error malformed⟩⟩

/-- The object that is never closed begins on the third line, since a quotation may go on behind a line
feed. -/
theorem tokenize_fault_located_object :
    let fault : InputFault := .lexeme (.malformedValue (.unterminatedString '\'')) ⟨3, 3⟩
    tokenize "say 'a\nb'\n  \x7bx: 'y" = .error fault ∧
      (Failure.input fault).message = "Unterminated string: ' at 3:3" ∧
      ∃ front back, PointsAt "say 'a\nb'\n  \x7bx: 'y" (.input fault) front back := by
  intro fault
  have failed : tokenize "say 'a\nb'\n  \x7bx: 'y" = .error fault := by
    simp [tokenize, readCalls, lexemes_cons, startsValue, separates, isLineBreak, isBlank, readWord,
      endsWord, readElement_eq, skipTrivia, readQuoted_cons, readQuoted, readMembers_eq, readName,
      readNameChars_cons, breaksName, trimEnd, Except.map, LexemeFault.within]
    decide
  exact ⟨failed, by decide, (tokenize_fault_located failed).2⟩

end Phrasebook.Input
