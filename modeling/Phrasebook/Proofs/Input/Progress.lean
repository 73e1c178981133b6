import Phrasebook.Proofs.Batch.Lines
import Phrasebook.Proofs.Input.Faults
import Phrasebook.Proofs.Input.Respelling
import Phrasebook.Proofs.Value.Progress

/-!
# Dividing an input by rounds

An input is divided into calls one character, one escape or one structured value at a time. `scanRound` is one
round of this; the word that is being read, the tokens of the call and the calls in front of it are the state
(`Scan`). A round that goes on takes at least one character (`consumes_of_scanRound`), and the rounds come to the
calls of the input (`settles_scanRound`), because what is held back is always a word that more characters may
follow. `reading_progresses` says this of the loops of the reader and of this one, and that a budget above the
length of an input is enough to measure its first value, to read it as a value and to divide it into calls.
-/

namespace Phrasebook.Input

open Phrasebook.Text Phrasebook.Value

/-! ## Words that go on -/

theorem Word.append {front back : List Char} (h : Word front) (more : Word back) :
    Word (front ++ back) := by
  induction h with
  | nil => exact more
  | plain plain stays _ ih => exact .plain plain stays ih
  | escape _ ih => exact .escape ih

/-- The token that a word is, unless it is empty. -/
def held (word : List Char) : List (List Char) :=
  if word.isEmpty then [] else [word]

theorem held_nil : held [] = [] :=
  rfl

theorem held_of_ne_nil {word : List Char} (nonempty : word ≠ []) : held word = [word] := by
  rw [held, if_neg (by simpa using nonempty)]

/-- A word is a lexeme in front of every text that lets it end. -/
theorem Word.lexemes_append_held {word rest : List Char} (h : Word word)
    (stops : Stops endsWord rest) :
    lexemes (word ++ rest) = (lexemes rest).map ((held word).map Lexeme.token ++ ·) := by
  cases word with
  | nil =>
    rw [List.nil_append, held_nil]
    cases lexemes rest <;> rfl
  | cons c word =>
    rw [h.stands rest stops, held_of_ne_nil (List.cons_ne_nil c word)]
    rfl

theorem Word.readWord_escape {word : List Char} (h : Word word) :
    readWord (word ++ ['\\']) = .error ⟨.incompleteEscape, ['\\']⟩ := by
  induction h with
  | nil => rfl
  | @plain c word plain stays _ ih =>
    cases tail : word ++ ['\\'] with
    | nil => exact absurd tail (by simp)
    | cons d text =>
      rw [tail] at ih
      simp [readWord, tail, plain, stays, ih]
  | escape _ ih => simp [readWord, ih]

/-- A backslash that escapes nothing is a fault behind every word. -/
theorem Word.lexemes_escape {word : List Char} (h : Word word) :
    lexemes (word ++ ['\\']) = .error ⟨.incompleteEscape, ['\\']⟩ := by
  have unread := h.readWord_escape
  obtain ⟨c, tail, equal, stays⟩ : ∃ c tail, word ++ ['\\'] = c :: tail ∧ endsWord c = false := by
    cases word with
    | nil => exact ⟨'\\', [], rfl, by decide⟩
    | cons c word => exact ⟨c, word ++ ['\\'], rfl, h.endsWord_eq_false⟩
  simp only [endsWord, Bool.or_eq_false_iff] at stays
  rw [equal] at unread ⊢
  simp only [lexemes_cons, stays, Bool.false_eq_true, if_false, unread]

/-! ## Rounds -/

/-- How far an input is divided: what is left of it, the word in front of that, the tokens in front of the word
that belong to the same call, and the calls in front of them. -/
structure Scan where
  rest : List Char
  word : List Char
  call : List (List Char)
  earlier : List (List (List Char))

/-- Makes the word a token of the call. -/
def Scan.submitToken (scan : Scan) : Scan :=
  if scan.word.isEmpty then scan else { scan with word := [], call := scan.call ++ [scan.word] }

/-- Ends the call, which counts if it holds a token. -/
def Scan.submitCall (scan : Scan) : Scan :=
  let scan := scan.submitToken
  if scan.call.isEmpty then scan else { scan with call := [], earlier := scan.earlier ++ [scan.call] }

/-- Divides what stands next in an input. -/
def scanRound (element : Reads Value) (scan : Scan) :
    Option (Round Scan (Except LexemeFault (List (List (List Char))))) :=
  match scan.rest with
  | [] => some (.done (.ok scan.submitCall.earlier))
  | c :: tail =>
    if c = '\\' then
      match tail with
      | [] => some (.done (.error ⟨.incompleteEscape, [c]⟩))
      | d :: tail => some (.next { scan with rest := tail, word := scan.word ++ [c, d] })
    else if startsValue c then
      (element (c :: tail)).map fun
        | .error fault => .done (.error ⟨.malformedValue fault.cause, c :: tail⟩)
        | .ok (_, rest) =>
          let token := (c :: tail).take (tail.length + 1 - rest.length)
          .next ({ scan.submitToken with rest := rest, word := token }).submitToken
    else if separates c then some (.next ({ scan with rest := tail }).submitCall)
    else if isBlank c then some (.next ({ scan with rest := tail }).submitToken)
    else some (.next { scan with rest := tail, word := scan.word ++ [c] })

theorem Scan.submitToken_eq (scan : Scan) :
    scan.submitToken = { scan with word := [], call := scan.call ++ held scan.word } := by
  obtain ⟨rest, word, call, earlier⟩ := scan
  cases word with
  | nil => simp [submitToken, held_nil]
  | cons c word => rfl

/-- The call that ends is the one of its tokens, if there are any. -/
theorem Scan.submitCall_eq (scan : Scan) :
    scan.submitCall =
      ⟨scan.rest, [], [],
        scan.earlier ++ calls ((scan.call ++ held scan.word).map .token)⟩ := by
  rw [submitCall, submitToken_eq]
  cases tokens : scan.call ++ held scan.word with
  | nil => simp [calls, splitCalls]
  | cons token more =>
    have one : calls ((token :: more).map .token) = [token :: more] :=
      @calls_callLexemes [token :: more] (by simp)
    rw [one]
    rfl

section Rounds

variable {element : Reads Value}

/-- A round that goes on takes at least one character. -/
theorem consumes_of_scanRound (takes : Progress element) {scan later : Scan}
    (goes : scanRound element scan = some (.next later)) :
    Consumes scan.rest later.rest := by
  obtain ⟨rest, word, call, earlier⟩ := scan
  cases rest with
  | nil => cases goes
  | cons c tail =>
    simp only [scanRound, Scan.submitToken_eq, Scan.submitCall_eq] at goes
    split at goes
    · cases tail with
      | nil => cases goes
      | cons d tail =>
        cases goes
        exact (consumes_cons c (d :: tail)).trans_suffix (List.suffix_cons d tail)
    · split at goes
      · obtain ⟨answer, read, leads⟩ := Option.map_eq_some_iff.1 goes
        cases answer with
        | error fault => cases leads
        | ok result =>
          cases leads
          exact takes read
      · split at goes
        · cases goes
          exact consumes_cons c tail
        · split at goes
          · cases goes
            exact consumes_cons c tail
          · cases goes
            exact consumes_cons c tail

/-- What the rounds come to from a state on. -/
def Scan.answer (scan : Scan) : Except LexemeFault (List (List (List Char))) :=
  (lexemes (scan.word ++ scan.rest)).map fun found =>
    scan.earlier ++ calls (scan.call.map .token ++ found)

/-- Where a word ends, the tokens of the call are in front of the lexemes of what is left. -/
theorem Scan.answer_of_stops {scan : Scan} (isWord : Word scan.word)
    (stops : Stops endsWord scan.rest) :
    scan.answer = (lexemes scan.rest).map fun found =>
      scan.earlier ++ calls ((scan.call ++ held scan.word).map .token ++ found) := by
  rw [answer, isWord.lexemes_append_held stops]
  cases lexemes scan.rest with
  | error fault => rfl
  | ok found => simp only [Except.map, List.map_append, List.append_assoc]

/-- What a state holds back is a word, and at most `bound` characters are left. -/
def Scan.Holds (bound : Nat) (scan : Scan) : Prop :=
  Word scan.word ∧ scan.rest.length ≤ bound

/-- A round of dividing settles what the input is divided into. -/
abbrev Dividing (element : Reads Value) (bound : Nat) (scan : Scan) : Prop :=
  Settles (scanRound element) (Scan.Holds bound) (fun scan => scan.rest.length) Scan.answer scan

section Dividing

variable {bound : Nat} {c : Char} {tail word : List Char} {call : List (List Char)}
  {earlier : List (List (List Char))}

theorem dividing_of_next {scan later : Scan} (goes : scanRound element scan = some (.next later))
    (isWord : Word later.word) (shorter : later.rest.length < scan.rest.length)
    (within : scan.rest.length ≤ bound) (same : later.answer = scan.answer) :
    Dividing element bound scan :=
  .next goes ⟨isWord, Nat.le_trans (Nat.le_of_lt shorter) within⟩ shorter same

theorem dividing_escape (isWord : Word word) (within : tail.length + 1 ≤ bound) :
    Dividing element bound ⟨'\\' :: tail, word, call, earlier⟩ := by
  cases tail with
  | nil =>
    refine .done ?_
    rw [Scan.answer, isWord.lexemes_escape]
    rfl
  | cons d tail =>
    have goes : scanRound element ⟨'\\' :: d :: tail, word, call, earlier⟩ =
        some (.next ⟨tail, word ++ ['\\', d], call, earlier⟩) := rfl
    refine dividing_of_next goes (isWord.append (.escape .nil))
      (Nat.lt_trans (Nat.lt_succ_self _) (Nat.lt_succ_self _)) within ?_
    simp only [Scan.answer, List.append_assoc, List.cons_append, List.nil_append]

theorem dividing_plain (escapes : c ≠ '\\') (stays : endsWord c = false) (isWord : Word word)
    (within : tail.length + 1 ≤ bound) : Dividing element bound ⟨c :: tail, word, call, earlier⟩ := by
  have isPlain := stays
  simp only [endsWord, Bool.or_eq_false_iff] at isPlain
  have goes : scanRound element ⟨c :: tail, word, call, earlier⟩ =
      some (.next ⟨tail, word ++ [c], call, earlier⟩) := by
    simp only [scanRound, if_neg escapes, isPlain, Bool.false_eq_true, if_false]
  refine dividing_of_next goes (isWord.append (.plain escapes stays .nil)) (Nat.lt_succ_self _) within ?_
  simp only [Scan.answer, List.append_assoc, List.singleton_append]

/-- A value is a token of its own, behind the word in front of it. -/
theorem dividing_value (starts : startsValue c = true) (isWord : Word word)
    (within : tail.length + 1 ≤ bound)
    (reads : element (c :: tail) = some (readElement false (c :: tail))) :
    Dividing element bound ⟨c :: tail, word, call, earlier⟩ := by
  have ends : endsWord c = true := by rw [endsWord, starts, Bool.true_or, Bool.true_or]
  have escapes := plain_of_endsWord ends
  have answer := @Scan.answer_of_stops ⟨c :: tail, word, call, earlier⟩ isWord (stops_cons ends tail)
  cases read : readElement false (c :: tail) with
  | error fault =>
    refine .done ?_
    rw [answer]
    simp only [scanRound, if_neg escapes, lexemes_cons, starts, if_true, reads, read]
    rfl
  | ok result =>
    obtain ⟨value, rest⟩ := result
    have shorter := length_lt_of_readElement read
    generalize spelled : (c :: tail).take (tail.length + 1 - rest.length) = token
    have nonempty : token ≠ [] := by
      rw [← spelled, ne_eq, List.take_eq_nil_iff]
      simp only [List.length_cons] at shorter
      simp only [reduceCtorEq, or_false]
      omega
    have goes : scanRound element ⟨c :: tail, word, call, earlier⟩ =
        some (.next ⟨rest, [], call ++ held word ++ [token], earlier⟩) := by
      simp only [scanRound, if_neg escapes, starts, if_true, reads, read, Option.map_some,
        Scan.submitToken_eq, spelled, held_of_ne_nil nonempty]
    refine dividing_of_next goes .nil shorter within ?_
    rw [answer, lexemes_cons, if_pos starts, read]
    simp only [Scan.answer, List.nil_append, spelled]
    cases lexemes rest with
    | error fault => rfl
    | ok found =>
      simp only [Except.map, List.map_append, List.map_cons, List.map_nil, List.append_assoc,
        List.singleton_append]

theorem dividing_separator (separator : separates c = true) (isWord : Word word)
    (within : tail.length + 1 ≤ bound) : Dividing element bound ⟨c :: tail, word, call, earlier⟩ := by
  have starts := startsValue_of_separates separator
  have ends : endsWord c = true := by rw [endsWord, separator, Bool.or_true, Bool.true_or]
  have escapes := plain_of_endsWord ends
  have answer := @Scan.answer_of_stops ⟨c :: tail, word, call, earlier⟩ isWord (stops_cons ends tail)
  have goes : scanRound element ⟨c :: tail, word, call, earlier⟩ =
      some (.next ⟨tail, [], [], earlier ++ calls ((call ++ held word).map .token)⟩) := by
    simp only [scanRound, if_neg escapes, starts, separator, Bool.false_eq_true, if_false, if_true,
      Scan.submitCall_eq]
  refine dividing_of_next goes .nil (Nat.lt_succ_self _) within ?_
  rw [answer, lexemes_separator separator, Scan.answer, List.nil_append]
  cases lexemes tail with
  | error fault => rfl
  | ok found =>
    simp only [Except.map, calls_separator, List.map_nil, List.nil_append, List.append_assoc]

theorem dividing_blank (blank : isBlank c = true) (separator : separates c = false)
    (isWord : Word word) (within : tail.length + 1 ≤ bound) :
    Dividing element bound ⟨c :: tail, word, call, earlier⟩ := by
  have starts := startsValue_of_isBlank blank
  have ends : endsWord c = true := by rw [endsWord, blank, Bool.or_true]
  have escapes := plain_of_endsWord ends
  have answer := @Scan.answer_of_stops ⟨c :: tail, word, call, earlier⟩ isWord (stops_cons ends tail)
  have goes : scanRound element ⟨c :: tail, word, call, earlier⟩ =
      some (.next ⟨tail, [], call ++ held word, earlier⟩) := by
    simp only [scanRound, if_neg escapes, starts, separator, blank, Bool.false_eq_true, if_false, if_true,
      Scan.submitToken_eq]
  refine dividing_of_next goes .nil (Nat.lt_succ_self _) within ?_
  rw [answer, lexemes_blank blank separator]
  rfl

end Dividing

/-- The rounds settle what a text is divided into, if `element` reads the values in what is left of it. -/
theorem settles_scanRound {bound : Nat}
    (agrees : ∀ text, text.length ≤ bound → element text = some (readElement false text))
    {scan : Scan} (holds : scan.Holds bound) : Dividing element bound scan := by
  obtain ⟨isWord, within⟩ := holds
  obtain ⟨rest, word, call, earlier⟩ := scan
  cases rest with
  | nil =>
    refine .done ?_
    rw [Scan.answer_of_stops isWord (stops_nil _), lexemes_nil]
    simp only [scanRound, Scan.submitCall_eq, Except.map, List.append_nil]
  | cons c tail =>
    by_cases escapes : c = '\\'
    · rw [escapes]
      exact dividing_escape isWord within
    · cases starts : startsValue c with
      | true => exact dividing_value starts isWord within (agrees _ within)
      | false =>
        cases separator : separates c with
        | true => exact dividing_separator separator isWord within
        | false =>
          cases blank : isBlank c with
          | true => exact dividing_blank blank separator isWord within
          | false =>
            have stays : endsWord c = false := by rw [endsWord, starts, separator, blank]; rfl
            exact dividing_plain escapes stays isWord within

theorem rounds_scanRound {bound limit : Nat} {text : List Char}
    (agrees : ∀ text, text.length ≤ bound → element text = some (readElement false text))
    (within : text.length ≤ bound) (enough : text.length < limit) :
    rounds (scanRound element) limit ⟨text, [], [], []⟩ = some (readCalls text) := by
  have start : Scan.Holds bound ⟨text, [], [], []⟩ := ⟨.nil, within⟩
  rw [rounds_eq_some (fun _ => settles_scanRound agrees) start enough]
  rfl

end Rounds

/-- `tokenize` with a budget for the rounds and for each value. -/
def tokenizeWithin (budget : Nat) (input : String) : Option (Except InputFault (List (List String))) :=
  (rounds (scanRound (elementWithin budget false)) budget ⟨input.toList, [], [], []⟩).map fun
    | .error fault => .error (fault.within input.toList)
    | .ok calls => .ok (calls.map fun call => call.map String.ofList)

theorem tokenizeWithin_eq_some {budget : Nat} {input : String} (enough : input.length < budget) :
    tokenizeWithin budget input = some (tokenize input) := by
  rw [← String.length_toList] at enough
  have agrees : ∀ text : List Char, text.length ≤ input.toList.length →
      elementWithin budget false text = some (readElement false text) :=
    fun text le => elementWithin_eq_some (Nat.lt_of_le_of_lt le enough)
  rw [tokenizeWithin, rounds_scanRound agrees (Nat.le_refl _) enough, tokenize]
  cases readCalls input.toList <;> rfl

/-- Reading goes on and stays in its text. From any place of a text, a value ends at a later place of the text,
and a fault is at a place between. A round of the loops over items, over members and over an input that goes on
takes at least one character, because the reader of values does. Therefore a budget above the length of an
input is enough to measure the value in front of it, to read it as a value, and to divide it into calls, for
every input. -/
theorem reading_progresses :
    (∀ inside text start, start ≤ text.length →
      StaysWithin text start (readElement inside (text.drop start))) ∧
    (∀ inside, Progress fun text => some (readElement inside text)) ∧
    (∀ element, Progress element →
      (∀ opening state later,
        entriesRound ']' .unterminatedArray element opening state = some (.next later) →
          Consumes state.1 later.1) ∧
      (∀ opening state later,
        entriesRound '}' .unterminatedObject (member element) opening state = some (.next later) →
          Consumes state.1 later.1) ∧
      ∀ scan later, scanRound element scan = some (.next later) → Consumes scan.rest later.rest) ∧
    ∀ input budget, input.length < budget →
      lengthWithin budget input = some (elementLength input) ∧
        readWithin budget input = some (read input) ∧
        tokenizeWithin budget input = some (tokenize input) := by
  refine ⟨fun inside text start => staysWithin_readElement inside, progress_readElement,
    fun element takes => ⟨?_, ?_, ?_⟩, fun input budget enough => ?_⟩
  · exact fun opening state later => consumes_of_entriesRound takes
  · exact fun opening state later => consumes_of_entriesRound (progress_member takes)
  · exact fun scan later => consumes_of_scanRound takes
  · exact ⟨lengthWithin_eq_some enough, readWithin_eq_some enough, tokenizeWithin_eq_some enough⟩

/-- A value behind a word and in an array that is not closed, and one round of each loop that takes a value. -/
theorem reading_progresses_quotations :
    StaysWithin "x ['a'".toList 2 (readElement false ("x ['a'".toList.drop 2)) ∧
      Consumes "'a' b".toList " b".toList ∧ Consumes "'a' ]".toList " ]".toList ∧
      Consumes "'k':'a' \x7d".toList " \x7d".toList ∧ Consumes "'a'; b".toList "; b".toList ∧
      tokenizeWithin 6 "'a' b" = some (tokenize "'a' b") := by
  have first : readElement false "'a' b".toList = .ok (.string "a", " b".toList) := by
    simp [readElement_eq, skipTrivia, isBlank, readQuoted_cons]
  have item : entriesRound ']' .unterminatedArray (fun text => some (readElement true text)) []
      ("'a' ]".toList, []) = some (.next (" ]".toList, [.string "a"])) := by
    simp [entriesRound, readElement_eq, skipTrivia, isBlank, readQuoted_cons]
  have pair : entriesRound '}' .unterminatedObject (member fun text => some (readElement true text)) []
      ("'k':'a' \x7d".toList, []) = some (.next (" \x7d".toList, [("k", .string "a")])) := by
    simp [entriesRound, member, readName, readElement_eq, skipTrivia, isBlank, readQuoted_cons]
  have scan : scanRound (fun text => some (readElement true text)) ⟨"'a'; b".toList, [], [], []⟩ =
      some (.next ⟨"; b".toList, [], ["'a'".toList], []⟩) := by
    simp [scanRound, startsValue, Scan.submitToken, readElement_eq, skipTrivia, isBlank, readQuoted_cons]
  obtain ⟨stays, progress, loops, enough⟩ := reading_progresses
  obtain ⟨items, members, scans⟩ := loops _ (progress true)
  exact ⟨stays false _ 2 (by decide), progress false (congrArg some first), items _ _ _ item,
    members _ _ _ pair, scans _ _ scan, (enough "'a' b" 6 (by decide)).2.2⟩

end Phrasebook.Input
