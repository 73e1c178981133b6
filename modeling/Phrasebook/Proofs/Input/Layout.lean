import Mathlib.Data.List.Chain
import Phrasebook.Proofs.Input.Tokens
import Phrasebook.Proofs.Value.Span

/-!
# The layout of an input

A text that can be read is a row of tokens, with gaps between them, in front of the first one and behind
the last. A gap holds blanks and semicolons and nothing else. A token is a word, or a value as long as it
is measured in the text from there on. The next token belongs to another call if the gap between the two
holds a semicolon or a line break, and to the same call otherwise.

`Layout` says so of a text and its calls, and `tokenize_eq_ok_iff` that the calls of an input are those that
it is laid out as. The way to it leads over the lexemes: `Spaced.lexemes_spread` reads the tokens off the
text that they make up, `readAs_of_lexemes` finds them in every text that can be read, and
`Numbered.calls_lexed` counts the calls.
-/

namespace Phrasebook.Input

open Phrasebook.Text Phrasebook.Value

/-- A token of a text, with the number of its call and the gap behind it. -/
structure Placed where
  token : List Char
  call : Nat
  gap : List Char

/-- The text that tokens and the gaps behind them make up. -/
def spread (placed : List Placed) : List Char :=
  placed.flatMap fun p => p.token ++ p.gap

/-- A gap consists of blanks, line breaks among them, and semicolons. -/
def IsGap (text : List Char) : Prop :=
  ∀ c ∈ text, isBlank c = true ∨ c = ';'

/-- A gap with a semicolon or a line break in it divides calls. -/
def Divides (gap : List Char) : Prop :=
  ∃ c ∈ gap, separates c = true

instance (gap : List Char) : Decidable (Divides gap) :=
  inferInstanceAs (Decidable (∃ c ∈ gap, separates c = true))

/-- A token that begins as values do, and is as long as the value that stands in front of the text. -/
def IsValue (token text : List Char) : Prop :=
  (∃ c tail, token = c :: tail ∧ startsValue c = true) ∧
    elementLength (String.ofList text) = .ok token.length

/-- The tokens of all calls in order, each with the number of its call. -/
def numbered {α : Type} (first : Nat) (calls : List (List α)) : List (α × Nat) :=
  (calls.zipIdx first).flatMap fun (call, number) => call.map (·, number)

/-- Tokens that can be told from each other in the text that they make up. -/
structure Spaced (placed : List Placed) : Prop where
  gaps : ∀ p ∈ placed, IsGap p.gap
  /-- No token is empty, and each is a word or the value at its place in the text. -/
  read : ∀ p later, p :: later <:+ placed →
    p.token ≠ [] ∧ (Word p.token ∨ IsValue p.token (spread (p :: later)))
  /-- Two words do not touch. -/
  apart : placed.IsChain fun p q => Word p.token → Word q.token → p.gap ≠ []

/-- Tokens that belong to calls, which are numbered from `first`. -/
structure Numbered (first : Nat) (calls : List (List (List Char))) (placed : List Placed) :
    Prop where
  tokens : placed.map (fun p => (p.token, p.call)) = numbered first calls
  full : ∀ call ∈ calls, call ≠ []
  /-- Two tokens next to each other are of one call just when the gap between them does not divide. -/
  divided : placed.IsChain fun p q => p.call = q.call ↔ ¬ Divides p.gap

/-- A text as a gap with tokens behind it, the tokens of the calls in order. -/
structure Layout (text : List Char) (calls : List (List (List Char))) (front : List Char)
    (placed : List Placed) : Prop extends Spaced placed, Numbered 0 calls placed where
  spelled : text = front ++ spread placed
  ahead : IsGap front

/-! ## Gaps -/

theorem spread_cons (p : Placed) (placed : List Placed) :
    spread (p :: placed) = p.token ++ (p.gap ++ spread placed) := by
  rw [spread, List.flatMap_cons, List.append_assoc, spread]

theorem isGap_nil : IsGap [] :=
  List.forall_mem_nil _

theorem isGap_cons_iff {c : Char} {gap : List Char} :
    IsGap (c :: gap) ↔ (isBlank c = true ∨ c = ';') ∧ IsGap gap :=
  List.forall_mem_cons

theorem isBlank_or_eq_of_separates {c : Char} (h : separates c = true) :
    isBlank c = true ∨ c = ';' := by
  rw [separates, Bool.or_eq_true, decide_eq_true_eq] at h
  exact h.imp_left isBlank_of_isLineBreak

/-- A gap ends words. -/
theorem IsGap.stops {gap rest : List Char} (h : IsGap gap) (holds : gap ≠ []) :
    Stops endsWord (gap ++ rest) := by
  cases gap with
  | nil => exact absurd rfl holds
  | cons c gap =>
    refine stops_cons ?_ _
    rcases (isGap_cons_iff.1 h).1 with blank | rfl
    · simp [endsWord, blank]
    · decide

/-! ## Numbers of calls -/

namespace Numbered

variable {first : Nat} {calls others : List (List (List Char))} {p : Placed} {placed : List Placed}

theorem nil : Numbered first [] [] where
  tokens := rfl
  full := List.forall_mem_nil _
  divided := .nil

/-- The first token begins the first call. -/
theorem exists_head (h : Numbered first calls (p :: placed)) :
    ∃ call others, calls = (p.token :: call) :: others ∧ p.call = first ∧
      placed.map (fun p => (p.token, p.call)) =
        call.map (·, first) ++ numbered (first + 1) others := by
  match calls, h with
  | [], h => cases h.tokens
  | [] :: others, h => exact absurd rfl (h.full [] List.mem_cons_self)
  | (token :: call) :: others, h =>
    obtain ⟨head, later⟩ := List.cons.inj h.tokens
    obtain ⟨rfl, number⟩ := Prod.mk.inj head
    exact ⟨call, others, rfl, number, later⟩

theorem call_eq (h : Numbered first calls (p :: placed)) : p.call = first := by
  obtain ⟨_, _, -, number, -⟩ := h.exists_head
  exact number

theorem head_call_eq (h : Numbered first calls placed) : ∀ q ∈ placed.head?, q.call = first := by
  cases placed with
  | nil => intro q member; cases member
  | cons p placed =>
    intro q member
    cases member
    exact h.call_eq

/-- A token with a gap behind it that divides calls is a call of its own. -/
theorem cons_of_divides (number : p.call = first) (divides : Divides p.gap)
    (h : Numbered (first + 1) others placed) :
    Numbered first ([p.token] :: others) (p :: placed) where
  tokens := by
    rw [List.map_cons, h.tokens, number]
    rfl
  full := List.forall_mem_cons.2 ⟨List.cons_ne_nil _ _, h.full⟩
  divided := by
    refine List.isChain_cons.2 ⟨fun q member => ?_, h.divided⟩
    rw [number, h.head_call_eq q member]
    simp [divides]

/-- A token with another gap behind it belongs to the first call behind the gap. -/
theorem cons_of_not_divides (number : p.call = first) (joins : ¬ Divides p.gap)
    (h : Numbered first others placed) :
    Numbered first (consToken p.token others) (p :: placed) where
  tokens := by
    rw [List.map_cons, h.tokens, number]
    cases others <;> rfl
  full := by
    cases others with
    | nil => exact List.forall_mem_singleton.2 (List.cons_ne_nil _ _)
    | cons call others =>
      exact List.forall_mem_cons.2 ⟨List.cons_ne_nil _ _, (List.forall_mem_cons.1 h.full).2⟩
  divided := by
    refine List.isChain_cons.2 ⟨fun q member => ?_, h.divided⟩
    rw [number, h.head_call_eq q member]
    simp [joins]

theorem eq_nil (h : Numbered first calls []) : calls = [] := by
  match calls, h with
  | [], _ => rfl
  | [] :: others, h => exact absurd rfl (h.full [] List.mem_cons_self)
  | (token :: call) :: others, h => cases h.tokens

/-- Behind the first token, the rest of its call is left or the calls behind it. -/
theorem tail (h : Numbered first calls (p :: placed)) :
    (∃ others, calls = [p.token] :: others ∧ Numbered (first + 1) others placed) ∨
      ∃ token call others, calls = (p.token :: token :: call) :: others ∧
        Numbered first ((token :: call) :: others) placed := by
  obtain ⟨call, others, rfl, -, later⟩ := h.exists_head
  have full := (List.forall_mem_cons.1 h.full).2
  have divided := (List.isChain_cons.1 h.divided).2
  cases call with
  | nil => exact .inl ⟨others, rfl, later, full, divided⟩
  | cons token call =>
    exact .inr ⟨token, call, others, rfl, later,
      List.forall_mem_cons.2 ⟨List.cons_ne_nil _ _, full⟩, divided⟩

/-- Whether the next token is one of the same call is told by the gap. -/
theorem call_eq_iff (h : Numbered first calls (p :: placed)) :
    ∀ q ∈ placed.head?, (q.call = first ↔ ¬ Divides p.gap) := by
  intro q member
  rw [← (List.isChain_cons.1 h.divided).1 q member, h.call_eq, eq_comm]

end Numbered

/-! ## Lexemes -/

/-- The separators in a gap. -/
def separators (gap : List Char) : List Lexeme :=
  List.replicate (gap.countP separates) .separator

/-- The lexemes that tokens and the gaps behind them are read as. -/
def lexed (placed : List Placed) : List Lexeme :=
  placed.flatMap fun p => .token p.token :: separators p.gap

theorem lexed_cons (p : Placed) (placed : List Placed) :
    lexed (p :: placed) = .token p.token :: (separators p.gap ++ lexed placed) :=
  rfl

theorem separators_cons_of_separates {c : Char} (h : separates c = true) (gap : List Char) :
    separators (c :: gap) = .separator :: separators gap := by
  rw [separators, List.countP_cons_of_pos h, List.replicate_succ, separators]

theorem separators_cons_of_not_separates {c : Char} (h : separates c = false) (gap : List Char) :
    separators (c :: gap) = separators gap := by
  rw [separators, List.countP_cons_of_neg (by simp [h]), separators]

/-- A gap is read as the separators in it. -/
theorem IsGap.lexemes_append {gap : List Char} (h : IsGap gap) (rest : List Char) :
    lexemes (gap ++ rest) = (lexemes rest).map (separators gap ++ ·) := by
  induction gap with
  | nil => cases found : lexemes rest <;> simp [found, separators, Except.map]
  | cons c gap ih =>
    obtain ⟨blank, isGap⟩ := isGap_cons_iff.1 h
    rw [List.cons_append]
    cases separator : separates c with
    | true =>
      rw [lexemes_separator separator, ih isGap, separators_cons_of_separates separator]
      cases lexemes rest <;> rfl
    | false =>
      have blank : isBlank c = true := blank.resolve_right (by rintro rfl; cases separator)
      rw [lexemes_blank blank separator, ih isGap, separators_cons_of_not_separates separator]

theorem calls_replicate_append (n : Nat) (found : List Lexeme) :
    calls (List.replicate n .separator ++ found) = calls found := by
  induction n with
  | zero => rfl
  | succ n ih => exact ih

theorem calls_token_token (token next : List Char) (found : List Lexeme) :
    calls (.token token :: .token next :: found) =
      consToken token (calls (.token next :: found)) := by
  rw [calls, calls, splitCalls, splitCalls]
  cases splitCalls found <;> rfl

/-- In front of a gap that divides calls, a token is a call of its own. -/
theorem calls_lexed_of_divides {p : Placed} (h : Divides p.gap) (placed : List Placed) :
    calls (lexed (p :: placed)) = [p.token] :: calls (lexed placed) := by
  have count : 0 < p.gap.countP separates := List.countP_pos_iff.2 h
  obtain ⟨n, equal⟩ := Nat.exists_eq_succ_of_ne_zero count.ne'
  rw [lexed_cons, separators, equal, List.replicate_succ, List.cons_append]
  exact congrArg ([p.token] :: ·) (calls_replicate_append n (lexed placed))

/-- In front of another gap, it belongs to the call of the token behind the gap. -/
theorem calls_lexed_of_not_divides {p : Placed} (h : ¬ Divides p.gap) (placed : List Placed) :
    calls (lexed (p :: placed)) = consToken p.token (calls (lexed placed)) := by
  have count : p.gap.countP separates = 0 :=
    Nat.eq_zero_of_not_pos fun count => h (List.countP_pos_iff.1 count)
  rw [lexed_cons, separators, count, List.replicate_zero, List.nil_append]
  cases placed with
  | nil => rfl
  | cons q placed => exact calls_token_token _ _ _

/-- The calls that tokens are numbered by are those that their lexemes form. -/
theorem Numbered.calls_lexed {first : Nat} {found : List (List (List Char))} {placed : List Placed}
    (h : Numbered first found placed) : calls (lexed placed) = found := by
  induction placed generalizing first found with
  | nil => exact h.eq_nil.symm
  | cons p placed ih =>
    rcases h.tail with ⟨others, rfl, later⟩ | ⟨token, call, others, rfl, later⟩
    · by_cases divides : Divides p.gap
      · rw [calls_lexed_of_divides divides, ih later]
      · -- nothing else can follow, as it would belong to the same call
        cases placed with
        | nil =>
          rw [later.eq_nil, calls_lexed_of_not_divides divides]
          rfl
        | cons q placed =>
          have same := (h.call_eq_iff q rfl).2 divides
          have next := later.call_eq
          omega
    · have joins : ¬ Divides p.gap := by
        cases placed with
        | nil => cases later.tokens
        | cons q placed => exact (h.call_eq_iff q rfl).1 later.call_eq
      rw [calls_lexed_of_not_divides joins, ih later]
      rfl

/-! ## The text -/

theorem not_word_of_startsValue {c : Char} {tail : List Char} (starts : startsValue c = true) :
    ¬ Word (c :: tail) := by
  intro word
  have stays := word.endsWord_eq_false
  rw [endsWord, starts] at stays
  cases stays

namespace Spaced

theorem nil : Spaced [] where
  gaps := List.forall_mem_nil _
  read p later h := by cases List.eq_nil_of_suffix_nil h
  apart := .nil

theorem cons_iff {p : Placed} {placed : List Placed} :
    Spaced (p :: placed) ↔ IsGap p.gap ∧
      (p.token ≠ [] ∧ (Word p.token ∨ IsValue p.token (spread (p :: placed)))) ∧
      (∀ q ∈ placed.head?, Word p.token → Word q.token → p.gap ≠ []) ∧ Spaced placed := by
  constructor
  · rintro ⟨gaps, read, apart⟩
    obtain ⟨here, gaps⟩ := List.forall_mem_cons.1 gaps
    obtain ⟨next, apart⟩ := List.isChain_cons.1 apart
    exact ⟨here, read p placed List.suffix_rfl, next, gaps,
      fun q later suffix => read q later (suffix.trans (List.suffix_cons p placed)), apart⟩
  · rintro ⟨here, first, next, gaps, read, apart⟩
    refine ⟨List.forall_mem_cons.2 ⟨here, gaps⟩, fun q later suffix => ?_,
      List.isChain_cons.2 ⟨next, apart⟩⟩
    rcases List.suffix_cons_iff.1 suffix with same | suffix
    · cases same
      exact first
    · exact read q later suffix

/-- Behind a word stands nothing, a gap or a value. -/
theorem stops {p : Placed} {placed : List Placed} (h : Spaced (p :: placed)) (word : Word p.token) :
    Stops endsWord (p.gap ++ spread placed) := by
  obtain ⟨isGap, -, next, others⟩ := cons_iff.1 h
  by_cases empty : p.gap = []
  · rw [empty, List.nil_append]
    cases placed with
    | nil => exact stops_nil _
    | cons q placed =>
      rcases (cons_iff.1 others).2.1.2 with word' | ⟨⟨c, tail, equal, starts⟩, -⟩
      · exact absurd empty (next q rfl word word')
      · rw [spread_cons, equal]
        exact stops_cons (by rw [endsWord, starts, Bool.true_or, Bool.true_or]) _
  · exact isGap.stops empty

end Spaced

/-- A value is read in front of a text in which it is measured. -/
theorem IsValue.lexemes_append {token rest : List Char} (h : IsValue token (token ++ rest)) :
    lexemes (token ++ rest) = (lexemes rest).map (Lexeme.token token :: ·) := by
  obtain ⟨⟨c, tail, rfl, starts⟩, measured⟩ := h
  cases read : readElement false (c :: tail ++ rest) with
  | error fault =>
    rw [elementLength, String.toList_ofList, read] at measured
    cases measured
  | ok result =>
    obtain ⟨value, left⟩ := result
    rw [List.cons_append] at read measured
    obtain ⟨before, token, equal, stands, stops, -⟩ := exists_token_of_readElement starts read
    rw [equal] at read measured
    rw [elementLength_of_readElement read, Except.ok.injEq] at measured
    obtain ⟨rfl, rfl⟩ := List.append_inj equal measured.symm
    exact stands rest stops

/-- Tokens are read from the text that they make up. -/
theorem Spaced.lexemes_spread {placed : List Placed} (h : Spaced placed) :
    lexemes (spread placed) = .ok (lexed placed) := by
  induction placed with
  | nil => exact lexemes_nil
  | cons p placed ih =>
    obtain ⟨isGap, ⟨holds, read⟩, -, others⟩ := Spaced.cons_iff.1 h
    have first : lexemes (p.token ++ (p.gap ++ spread placed)) =
        (lexemes (p.gap ++ spread placed)).map (Lexeme.token p.token :: ·) := by
      rcases read with word | value
      · obtain ⟨c, tail, equal⟩ := List.exists_cons_of_ne_nil holds
        have stops := h.stops word
        rw [equal] at word ⊢
        exact word.stands _ stops
      · rw [spread_cons] at value
        exact value.lexemes_append
    rw [spread_cons, first, isGap.lexemes_append, ih others]
    rfl

/-- A text as a gap and tokens that have the lexemes, numbered from whatever number on. -/
def ReadAs (text : List Char) (found : List Lexeme) : Prop :=
  ∃ front, IsGap front ∧ ∀ first, ∃ placed, text = front ++ spread placed ∧
    found = separators front ++ lexed placed ∧ Spaced placed ∧
    Numbered first (calls (lexed placed)) placed

/-- A character of a gap goes in front of the gap. -/
theorem ReadAs.gap {c : Char} {rest : List Char} {more : List Lexeme} (h : ReadAs rest more)
    (isGap : isBlank c = true ∨ c = ';') : ReadAs (c :: rest) (separators [c] ++ more) := by
  obtain ⟨front, isGap', numbers⟩ := h
  refine ⟨c :: front, isGap_cons_iff.2 ⟨isGap, isGap'⟩, fun first => ?_⟩
  obtain ⟨placed, rfl, rfl, others⟩ := numbers first
  refine ⟨placed, rfl, ?_, others⟩
  rw [← List.append_assoc, separators, separators, separators, List.replicate_append_replicate,
    ← List.countP_append, List.singleton_append]

/-- A token goes in front of a text; the gap in front of the text is then the one behind the token. -/
theorem ReadAs.token {token rest : List Char} {more : List Lexeme} (h : ReadAs rest more)
    (holds : token ≠ []) (read : Word token ∨ IsValue token (token ++ rest))
    (stops : Word token → Stops endsWord rest) :
    ReadAs (token ++ rest) (.token token :: more) := by
  obtain ⟨gap, isGap, numbers⟩ := h
  refine ⟨[], isGap_nil, fun first => ?_⟩
  obtain ⟨placed, spelled, lexes, spaced, numbered⟩ :=
    numbers (if Divides gap then first + 1 else first)
  refine ⟨⟨token, first, gap⟩ :: placed, by rw [spread_cons, ← spelled]; rfl,
    by rw [lexed_cons, ← lexes]; rfl, Spaced.cons_iff.2 ⟨isGap, ⟨holds, ?_⟩, ?_, spaced⟩, ?_⟩
  · rwa [spread_cons, ← spelled]
  · rintro q member word word' rfl
    -- the second word would have been read as part of the first
    cases placed with
    | nil => cases member
    | cons q placed =>
      cases member
      obtain ⟨c, tail, equal⟩ := List.exists_cons_of_ne_nil (Spaced.cons_iff.1 spaced).2.1.1
      have ends : endsWord c = true := stops word c (by rw [spelled, spread_cons, equal]; rfl)
      rw [equal] at word'
      rw [word'.endsWord_eq_false] at ends
      cases ends
  · by_cases divides : Divides gap
    · rw [if_pos divides] at numbered
      rw [calls_lexed_of_divides divides]
      exact numbered.cons_of_divides rfl divides
    · rw [if_neg divides] at numbered
      rw [calls_lexed_of_not_divides divides]
      exact numbered.cons_of_not_divides rfl divides

/-- Every text that can be read is a gap and tokens. -/
theorem readAs_of_lexemes {text : List Char} {found : List Lexeme} (h : lexemes text = .ok found) :
    ReadAs text found := by
  fun_induction lexemes text generalizing found with
  | case1 =>
    cases h
    exact ⟨[], isGap_nil, fun first => ⟨[], rfl, rfl, .nil, .nil⟩⟩
  | case2 => cases h
  | case3 => cases h
  | case4 c tail starts value rest taken _ more _ ih =>
    obtain ⟨before, token, equal, -⟩ := exists_token_of_readElement starts taken
    have length : tail.length + 1 = token.length + rest.length := by
      rw [← List.length_append, ← equal, List.length_cons]
    have shorter : rest.length < tail.length + 1 := length_lt_of_readElement taken
    have spelled : (c :: tail).take (tail.length + 1 - rest.length) = token := by
      rw [equal]
      exact List.take_left' (by omega)
    rw [spelled] at h
    cases h
    cases token with
    | nil =>
      rw [List.length_nil] at length
      omega
    | cons d token =>
      obtain ⟨rfl, rfl⟩ := List.cons.inj equal
      exact (ih ‹_›).token (List.cons_ne_nil _ _)
        (.inr ⟨⟨c, token, rfl, starts⟩, elementLength_of_readElement taken⟩)
        fun word => absurd word (not_word_of_startsValue starts)
  | case5 => cases h
  | case6 c tail _ separates more _ ih =>
    cases h
    have later := (ih ‹_›).gap (isBlank_or_eq_of_separates separates)
    rwa [separators_cons_of_separates separates] at later
  | case7 c tail _ separates blank ih =>
    have later := (ih h).gap (.inl blank)
    rwa [separators_cons_of_not_separates (by simpa using separates)] at later
  | case8 => cases h
  | case9 => cases h
  | case10 c tail starts separates blank token rest word _ more _ ih =>
    cases h
    have holds := ne_nil_of_readWord (by simp [endsWord, starts, separates, blank]) word
    obtain ⟨isWord, equal, stops⟩ := word_of_readWord word
    rw [equal]
    exact (ih ‹_›).token holds (.inl isWord) fun _ => stops

/-- The calls of a text are those that it is laid out as. -/
theorem readCalls_eq_ok_iff {text : List Char} {found : List (List (List Char))} :
    readCalls text = .ok found ↔ ∃ front placed, Layout text found front placed := by
  constructor
  · intro h
    rw [readCalls] at h
    cases read : lexemes text with
    | error fault => rw [read] at h; cases h
    | ok lexed =>
      rw [read] at h
      cases h
      obtain ⟨front, isGap, numbers⟩ := readAs_of_lexemes read
      obtain ⟨placed, spelled, rfl, spaced, numbered⟩ := numbers 0
      refine ⟨front, placed, ?_⟩
      rw [separators, calls_replicate_append]
      exact { spaced, numbered with spelled, ahead := isGap }
  · rintro ⟨front, placed, layout⟩
    rw [layout.spelled, readCalls, layout.ahead.lexemes_append, layout.toSpaced.lexemes_spread]
    simp only [Except.map]
    rw [separators, calls_replicate_append, layout.toNumbered.calls_lexed]

/-- **Layout.** An input holds some calls just when it is laid out as them: a row of their tokens in order,
with nothing but blanks and semicolons between them, in front and behind. So no part of an input gets lost
unless it is one of these, and no token is made up, moved, or cut in another place than where its word or
value ends. -/
theorem tokenize_eq_ok_iff {input : String} {found : List (List String)} :
    tokenize input = .ok found ↔
      ∃ front placed, Layout input.toList (found.map (·.map String.toList)) front placed := by
  rw [← readCalls_eq_ok_iff, tokenize]
  cases readCalls input.toList with
  | error fault => simp
  | ok calls =>
    simp only [Except.ok.injEq]
    constructor
    · rintro rfl
      simp [Function.comp_def]
    · rintro rfl
      simp [Function.comp_def]

end Phrasebook.Input
