import Phrasebook.Input.Calls
import Phrasebook.Proofs.Value.Locality

/-!
# Where a token ends

A token is read alike in front of every text that lets it end (`Stands`). A plain word, described by
`Word`, ends in front of any character that ends words. A structured value with an end of its own ends
anywhere, and one without, a bare value behind comments, in front of a line break.

`Lexes` describes the lexemes of a whole text with the place where each token may end; `lexes_iff` says
that it describes what `lexemes` finds. `Lexes.lexemes_append` cuts a text in two where a token may end.
-/

namespace Phrasebook.Input

open Phrasebook.Text Phrasebook.Value

/-! ## Words -/

/-- Plain words: characters that end no word, and backslashes with the character behind them. -/
inductive Word : List Char → Prop
  | nil : Word []
  | plain {c : Char} {word : List Char} :
    c ≠ '\\' → endsWord c = false → Word word → Word (c :: word)
  | escape {c : Char} {word : List Char} : Word word → Word ('\\' :: c :: word)

theorem endsWord_of_isLineBreak (c : Char) (h : isLineBreak c = true) : endsWord c = true := by
  simp [endsWord, separates, h]

theorem plain_of_endsWord {c : Char} (ends : endsWord c = true) : c ≠ '\\' := by
  rintro rfl
  exact absurd ends (by decide)

theorem readWord_of_stops {rest : List Char} (h : Stops endsWord rest) :
    readWord rest = .ok ([], rest) := by
  match rest, h with
  | [], _ => rfl
  | [c], h =>
    have ends := h c rfl
    simp [readWord, plain_of_endsWord ends, ends]
  | c :: d :: rest, h =>
    have ends := h c rfl
    simp [readWord, plain_of_endsWord ends, ends]

/-- The rule for a word that goes on with a character. -/
theorem readWord_cons {c : Char} {text word rest : List Char} (plain : c ≠ '\\')
    (stays : endsWord c = false) (h : readWord text = .ok (word, rest)) :
    readWord (c :: text) = .ok (c :: word, rest) := by
  cases text with
  | nil =>
    cases h
    simp [readWord, plain, stays]
  | cons d text => simp [readWord, plain, stays, h]

/-- A word is read in front of every text that lets it end. -/
theorem Word.readWord_append {word : List Char} (h : Word word) {rest : List Char}
    (stops : Stops endsWord rest) : readWord (word ++ rest) = .ok (word, rest) := by
  induction h with
  | nil => exact readWord_of_stops stops
  | plain plain stays _ ih => exact readWord_cons plain stays ih
  | escape _ ih => simp [readWord, ih]

/-- What is read as a word is one. -/
theorem word_of_readWord {text word rest : List Char} (h : readWord text = .ok (word, rest)) :
    Word word ∧ text = word ++ rest ∧ Stops endsWord rest := by
  fun_induction readWord text generalizing word with
  | case1 =>
    cases h
    exact ⟨.nil, rfl, stops_nil _⟩
  | case2 => simp at h
  | case3 c plain ends =>
    cases h
    exact ⟨.nil, rfl, stops_cons ends []⟩
  | case4 c plain stays =>
    cases h
    exact ⟨.plain plain (by simpa using stays) .nil, rfl, stops_nil _⟩
  | case5 => simp at h
  | case6 d text word rest' read ih =>
    cases h
    obtain ⟨isWord, rfl, stops⟩ := ih read
    exact ⟨.escape isWord, rfl, stops⟩
  | case7 c d text plain ends =>
    cases h
    exact ⟨.nil, rfl, stops_cons ends _⟩
  | case8 => simp at h
  | case9 c d text plain stays word rest' read ih =>
    cases h
    obtain ⟨isWord, equal, stops⟩ := ih read
    exact ⟨.plain plain (by simpa using stays) isWord, by rw [equal]; rfl, stops⟩

/-- A word is not empty where its first character does not end words. -/
theorem ne_nil_of_readWord {c : Char} {tail word rest : List Char} (stays : endsWord c = false)
    (h : readWord (c :: tail) = .ok (word, rest)) : word ≠ [] := by
  rintro rfl
  obtain ⟨-, rfl, stops⟩ := word_of_readWord h
  have ends := stops c rfl
  rw [stays] at ends
  cases ends

theorem Word.endsWord_eq_false {c : Char} {word : List Char} (h : Word (c :: word)) :
    endsWord c = false := by
  cases h with
  | plain _ stays _ => exact stays
  | escape _ => decide

/-! ## Tokens in front of a text -/

/-- In front of every text where it may end, the token is one lexeme. -/
def Stands (before : Char → Bool) (token : List Char) : Prop :=
  ∀ rest, Stops before rest →
    lexemes (token ++ rest) = (lexemes rest).map (Lexeme.token token :: ·)

theorem Stands.mono {before after : Char → Bool} {token : List Char}
    (le : ∀ c, before c = true → after c = true) (h : Stands after token) : Stands before token :=
  fun rest stops => h rest (stops.mono le)

/-- A token by itself is one lexeme. -/
theorem Stands.lexemes_eq {before : Char → Bool} {token : List Char} (h : Stands before token) :
    lexemes token = .ok [.token token] := by
  simpa [lexemes_nil, Except.map] using h [] (stops_nil before)

theorem Word.stands {c : Char} {word : List Char} (h : Word (c :: word)) :
    Stands endsWord (c :: word) := by
  intro rest stops
  have read := h.readWord_append stops
  have stays := h.endsWord_eq_false
  simp only [endsWord, Bool.or_eq_false_iff] at stays
  rw [List.cons_append] at read
  rw [List.cons_append, lexemes_cons]
  simp only [stays, Bool.false_eq_true, if_false, read]
  cases lexemes rest <;> rfl

theorem stands_of_takes {before : Char → Bool} {c : Char} {tail : List Char} {value : Value}
    (starts : startsValue c = true)
    (takes : ∀ rest, Stops before rest →
      readElement false (c :: tail ++ rest) = .ok (value, rest)) :
    Stands before (c :: tail) := by
  intro rest stops
  have read := takes rest stops
  rw [List.cons_append] at read
  have spelled : (c :: (tail ++ rest)).take ((tail ++ rest).length + 1 - rest.length) = c :: tail := by
    have length : (tail ++ rest).length + 1 - rest.length = (c :: tail).length := by
      rw [List.length_append, List.length_cons]
      omega
    rw [length, ← List.cons_append]
    exact List.take_left
  rw [List.cons_append, lexemes_cons, if_pos starts, read]
  simp only [spelled]
  cases lexemes rest <;> rfl

theorem isBlank_of_startsValue {c : Char} (starts : startsValue c = true) : isBlank c = false := by
  simp only [startsValue, Bool.or_eq_true, decide_eq_true_eq] at starts
  rcases starts with (((((((rfl | rfl) | rfl) | rfl) | rfl) | rfl) | rfl) | rfl) | rfl <;> decide

/-- A structured value without comments has an end of its own. -/
theorem closesItself_of_startsValue {c : Char} (starts : startsValue c = true)
    (opens : opensValue c = true) : closesItself c = true := by
  simp only [startsValue, Bool.or_eq_true, decide_eq_true_eq] at starts
  rcases starts with (((((((rfl | rfl) | rfl) | rfl) | rfl) | rfl) | rfl) | rfl) | rfl
  all_goals first | decide | exact absurd opens (by decide)

/-- A token with an end of its own: a word, or a structured value up to the character that closes it. -/
def Closed (token : List Char) : Prop :=
  Word token ∨ ∃ c, closesItself c = true ∧ token.getLast? = some (closing c)

/-- Where a token ends: a closed one in front of any character that ends words, if not in front of any
character at all, and a bare value behind a comment in front of a line break. -/
inductive Reaches : (Char → Bool) → List Char → Prop
  | closed {before : Char → Bool} {token : List Char} :
    (∀ c, endsWord c = true → before c = true) → Closed token → Reaches before token
  | comment {token : List Char} :
    '#' ∈ token ∨ '/' ∈ token → (∀ c ∈ token.getLast?, isLineBreak c = false) →
    Reaches isLineBreak token

/-- The token that a structured value makes, and where it may end. -/
theorem exists_token_of_readElement {c : Char} {tail rest : List Char} {value : Value}
    (starts : startsValue c = true) (h : readElement false (c :: tail) = .ok (value, rest)) :
    ∃ before token, c :: tail = token ++ rest ∧ Stands before token ∧ Stops before rest ∧
      Reaches before token := by
  obtain ⟨trivia, d, body, isTrivia, opens, equal, finished, mayEnd, takes⟩ :=
    takes_of_readElement h
  have token : ∃ token, c :: token = trivia ++ d :: body := by
    cases trivia with
    | nil => exact ⟨body, by rw [(List.cons.inj equal).1]; rfl⟩
    | cons e trivia => exact ⟨trivia ++ d :: body, by rw [(List.cons.inj equal).1]; rfl⟩
  obtain ⟨token, spelled⟩ := token
  rw [← spelled] at equal takes
  rcases finished with ⟨closes, last⟩ | ⟨open', inLine⟩
  · have anywhere : ∀ rest, readElement false (c :: token ++ rest) = .ok (value, rest) :=
      fun rest => takes rest (.inl closes)
    have ends : (c :: token).getLast? = some (closing d) := by
      rw [spelled]
      exact getLast?_append_eq_some trivia (getLast?_cons_eq_some d last)
    exact ⟨fun _ => true, c :: token, equal,
      stands_of_takes starts fun rest _ => anywhere rest, fun _ _ => rfl,
      .closed (fun _ _ => rfl) (.inr ⟨d, closes, ends⟩)⟩
  · rw [MayEnd, endsBare_false] at mayEnd
    rw [endsBare_false] at inLine
    have inFront : ∀ rest, Stops isLineBreak rest →
        readElement false (c :: token ++ rest) = .ok (value, rest) :=
      fun rest stops => takes rest (.inr (by rw [endsBare_false]; exact stops))
    have comment : '#' ∈ c :: token ∨ '/' ∈ c :: token := by
      cases trivia with
      | nil =>
        obtain ⟨rfl, -⟩ := List.cons.inj spelled
        rw [closesItself_of_startsValue starts opens] at open'
        cases open'
      | cons e trivia =>
        obtain ⟨rfl, -⟩ := List.cons.inj spelled
        rcases isTrivia.head with blank | rfl | rfl
        · rw [isBlank_of_startsValue starts] at blank
          cases blank
        · exact .inl List.mem_cons_self
        · exact .inr List.mem_cons_self
    have lastInLine : ∀ e ∈ (c :: token).getLast?, isLineBreak e = false := by
      intro e last
      have ends := getLast?_append_eq_some trivia (List.getLast?_cons (a := d) (l := body))
      rw [spelled, ends, Option.mem_some] at last
      rw [← last]
      exact inLine _ (List.mem_of_getLast? List.getLast?_cons)
    exact ⟨isLineBreak, c :: token, equal, stands_of_takes starts inFront,
      mayEnd.resolve_left (by simp [open']), .comment comment lastInLine⟩

/-! ## All tokens of a text -/

/-- The lexemes of a text, with the place where each token may end. -/
inductive Lexes : List Char → List Lexeme → Prop
  | nil : Lexes [] []
  | separator {c : Char} {text : List Char} {more : List Lexeme} :
    separates c = true → Lexes text more → Lexes (c :: text) (.separator :: more)
  | blank {c : Char} {text : List Char} {more : List Lexeme} :
    isBlank c = true → separates c = false → Lexes text more → Lexes (c :: text) more
  | token {before : Char → Bool} {token text : List Char} {more : List Lexeme} :
    Stands before token → Reaches before token → Stops before text → Lexes text more →
    Lexes (token ++ text) (.token token :: more)

theorem startsValue_of_separates {c : Char} (h : separates c = true) : startsValue c = false := by
  simp only [separates, isLineBreak, Bool.or_eq_true, decide_eq_true_eq, beq_iff_eq] at h
  rcases h with (((rfl | rfl) | rfl) | rfl) | rfl <;> decide

theorem startsValue_of_isBlank {c : Char} (h : isBlank c = true) : startsValue c = false := by
  cases starts : startsValue c with
  | false => rfl
  | true => rw [isBlank_of_startsValue starts] at h; cases h

theorem lexemes_separator {c : Char} (h : separates c = true) (text : List Char) :
    lexemes (c :: text) = (lexemes text).map (Lexeme.separator :: ·) := by
  rw [lexemes_cons, if_neg (by simp [startsValue_of_separates h]), if_pos h]
  cases lexemes text <;> rfl

theorem lexemes_blank {c : Char} (h : isBlank c = true) (stays : separates c = false)
    (text : List Char) : lexemes (c :: text) = lexemes text := by
  rw [lexemes_cons, if_neg (by simp [startsValue_of_isBlank h]), if_neg (by simp [stays]), if_pos h]

theorem Lexes.lexemes_eq {text : List Char} {found : List Lexeme} (h : Lexes text found) :
    lexemes text = .ok found := by
  induction h with
  | nil => exact lexemes_nil
  | separator separates _ ih => rw [lexemes_separator separates, ih]; rfl
  | blank blank stays _ ih => rw [lexemes_blank blank stays, ih]
  | token stands _ stops _ ih => rw [stands _ stops, ih]; rfl

/-- What the lexer finds is described by `Lexes`. -/
theorem lexes_of_lexemes {text : List Char} {found : List Lexeme} (h : lexemes text = .ok found) :
    Lexes text found := by
  fun_induction lexemes text generalizing found with
  | case1 =>
    cases h
    exact .nil
  | case2 => cases h
  | case3 => cases h
  | case4 c tail starts value rest taken _ more _ ih =>
    obtain ⟨before, token, equal, stands, stops, reaches⟩ := exists_token_of_readElement starts taken
    have length : tail.length + 1 = token.length + rest.length := by
      rw [← List.length_append, ← equal, List.length_cons]
    have spelled : (c :: tail).take (tail.length + 1 - rest.length) = token := by
      rw [equal, length, Nat.add_sub_cancel]
      exact List.take_left
    rw [spelled] at h
    cases h
    rw [equal]
    exact .token stands reaches stops (ih ‹_›)
  | case5 => cases h
  | case6 c tail _ separates more _ ih =>
    cases h
    exact .separator separates (ih ‹_›)
  | case7 c tail _ separates blank ih => exact .blank blank (by simpa using separates) (ih h)
  | case8 => cases h
  | case9 => cases h
  | case10 c tail starts separates blank token rest word _ more _ ih =>
    cases h
    have holds := ne_nil_of_readWord (by simp [endsWord, starts, separates, blank]) word
    obtain ⟨isWord, equal, stops⟩ := word_of_readWord word
    obtain ⟨d, token, rfl⟩ := List.exists_cons_of_ne_nil holds
    rw [equal]
    exact .token isWord.stands (.closed (fun _ h => h) (.inl isWord)) stops (ih ‹_›)

theorem lexes_iff {text : List Char} {found : List Lexeme} :
    Lexes text found ↔ lexemes text = .ok found :=
  ⟨Lexes.lexemes_eq, lexes_of_lexemes⟩

/-- A token is no longer than the text. -/
theorem Lexes.length_le {text : List Char} {found : List Lexeme} (h : Lexes text found) :
    ∀ token, Lexeme.token token ∈ found → token.length ≤ text.length := by
  induction h with
  | nil => intro token member; cases member
  | separator _ _ ih =>
    intro token member
    rcases List.mem_cons.1 member with same | later
    · cases same
    · exact Nat.le_succ_of_le (ih token later)
  | blank _ _ _ ih => exact fun token member => Nat.le_succ_of_le (ih token member)
  | token _ _ _ _ ih =>
    intro token' member
    rw [List.length_append]
    rcases List.mem_cons.1 member with same | later
    · cases same
      exact Nat.le_add_right _ _
    · exact Nat.le_trans (ih token' later) (Nat.le_add_left _ _)

/-- A token is not empty and begins with neither a separator nor a blank. -/
theorem Stands.exists_head {before : Char → Bool} {token : List Char} (h : Stands before token) :
    ∃ c tail, token = c :: tail ∧ separates c = false ∧ isBlank c = false := by
  have alone := h.lexemes_eq
  cases token with
  | nil =>
    rw [lexemes_nil] at alone
    cases alone
  | cons c tail =>
    refine ⟨c, tail, rfl, ?_⟩
    cases separator : separates c with
    | true =>
      rw [lexemes_separator separator] at alone
      cases read : lexemes tail with
      | error fault => rw [read] at alone; cases alone
      | ok found => rw [read] at alone; cases alone
    | false =>
      refine ⟨rfl, ?_⟩
      cases blank : isBlank c with
      | false => rfl
      | true =>
        rw [lexemes_blank blank separator] at alone
        have shorter := (lexes_of_lexemes alone).length_le (c :: tail) List.mem_cons_self
        exact absurd shorter (Nat.not_succ_le_self tail.length)

theorem Reaches.lineBreak {before : Char → Bool} {token : List Char} (h : Reaches before token)
    (c : Char) (breaks : isLineBreak c = true) : before c = true := by
  cases h with
  | closed le _ => exact le c (endsWord_of_isLineBreak c breaks)
  | comment _ _ => exact breaks

/-- A text may be cut where each of its tokens may end. -/
theorem Lexes.lexemes_append_of_stops {front back : List Char} {found : List Lexeme}
    (h : Lexes front found)
    (stops : ∀ before token, token <:+: front → Reaches before token → Stops before back) :
    lexemes (front ++ back) = (lexemes back).map (found ++ ·) := by
  induction h with
  | nil => cases h : lexemes back <;> simp [h, Except.map]
  | @separator c text _ separates _ ih =>
    have later := ih fun before token inText =>
      stops before token (inText.trans (List.suffix_cons c text).isInfix)
    rw [List.cons_append, lexemes_separator separates, later]
    cases lexemes back <;> rfl
  | @blank c text _ blank stays _ ih =>
    rw [List.cons_append, lexemes_blank blank stays]
    exact ih fun before token inText =>
      stops before token (inText.trans (List.suffix_cons c text).isInfix)
  | @token before token text _ stands reaches ends _ ih =>
    have stopsHere := stops before token (List.prefix_append token text).isInfix reaches
    have later := ih fun before' token' inText =>
      stops before' token' (inText.trans (List.suffix_append token text).isInfix)
    rw [List.append_assoc, stands _ (ends.append stopsHere), later]
    cases lexemes back <;> rfl

/-- A text may be cut in front of a character that ends words, unless the front holds what may begin
a comment. -/
theorem Lexes.lexemes_append {front back : List Char} {found : List Lexeme} (h : Lexes front found)
    (noHash : '#' ∉ front) (noSlash : '/' ∉ front) (stops : Stops endsWord back) :
    lexemes (front ++ back) = (lexemes back).map (found ++ ·) := by
  refine h.lexemes_append_of_stops fun before token inFront reaches => ?_
  rcases reaches with ⟨le, -⟩ | ⟨hash | slash, -⟩
  · exact stops.mono le
  · exact absurd (inFront.subset hash) noHash
  · exact absurd (inFront.subset slash) noSlash

/-- In front of a line break, a text may be cut whatever it holds. -/
theorem Lexes.lexemes_append_lineBreak {front back : List Char} {found : List Lexeme}
    (h : Lexes front found) (stops : Stops isLineBreak back) :
    lexemes (front ++ back) = (lexemes back).map (found ++ ·) :=
  h.lexemes_append_of_stops fun _ _ _ reaches => stops.mono reaches.lineBreak

end Phrasebook.Input
