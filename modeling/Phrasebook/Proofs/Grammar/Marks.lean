import Phrasebook.Proofs.Grammar.Escapes

/-!
# Brackets and commas of a text

What the cuts in a format string depend on are the bare brackets and the commas of a text, bare and
escaped: its `marks`. `closeBracket?` cuts where the level of one kind of brackets ends:
`closeBracket?_append` says so of a text that is put together, and `of_closeBracket?` of one that is cut.
-/

namespace Phrasebook

open Phrasebook.Text

/-! ## Marks -/

/-- A bare bracket, or a comma with or without a backslash. -/
inductive Mark where
  | bracket (c : Char)
  | comma (escaped : Bool)
  deriving DecidableEq

/-- Whether a character is a bracket of any kind. -/
def isBracket (c : Char) : Bool :=
  opensBracket c || closesBracket c

/-- The mark of a bare character, if it is one. -/
def bareMark (c : Char) : List Mark :=
  if c = ',' then [.comma false] else if isBracket c then [.bracket c] else []

/-- The mark of an escaped character, if it is one. -/
def escapedMark (c : Char) : List Mark :=
  if c = ',' then [.comma true] else []

/-- The marks of a text. -/
def marks : List Char → List Mark
  | [] => []
  | [c] => bareMark c
  | c :: d :: text =>
    if c = '\\' then escapedMark d ++ marks text else bareMark c ++ marks (d :: text)

theorem marks_bare {c : Char} (plain : c ≠ '\\') (text : List Char) :
    marks (c :: text) = bareMark c ++ marks text := by
  cases text with
  | nil => rw [marks, marks, List.append_nil]
  | cons d text => rw [marks, if_neg plain]

theorem marks_escaped (c : Char) (text : List Char) :
    marks ('\\' :: c :: text) = escapedMark c ++ marks text := by
  rw [marks, if_pos rfl]

theorem Paired.marks_append {front : List Char} (h : Paired front) (back : List Char) :
    marks (front ++ back) = marks front ++ marks back := by
  induction h with
  | nil => rfl
  | bare plain _ ih =>
    rw [List.cons_append, marks_bare plain, marks_bare plain, ih, List.append_assoc]
  | escaped _ ih =>
    rw [List.cons_append, List.cons_append, marks_escaped, marks_escaped, ih, List.append_assoc]

theorem isBracket_of_isBlank {c : Char} (h : isBlank c = true) : isBracket c = false := by
  cases bracket : isBracket c with
  | false => rfl
  | true =>
    simp only [isBracket, opensBracket, closesBracket, Bool.or_eq_true, decide_eq_true_eq] at bracket
    rcases bracket with ((rfl | rfl) | rfl) | ((rfl | rfl) | rfl) <;> exact absurd h (by decide)

theorem bareMark_of_isBlank {c : Char} (h : isBlank c = true) : bareMark c = [] := by
  have comma : c ≠ ',' := by rintro rfl; exact absurd h (by decide)
  rw [bareMark, if_neg comma, isBracket_of_isBlank h]
  rfl

theorem plain_of_isBlank {c : Char} (h : isBlank c = true) : c ≠ '\\' := by
  rintro rfl
  exact absurd h (by decide)

theorem marks_of_blank {blanks : List Char} (h : ∀ c ∈ blanks, isBlank c = true) :
    marks blanks = [] := by
  induction blanks with
  | nil => rfl
  | cons c blanks ih =>
    have blank := h c List.mem_cons_self
    rw [marks_bare (plain_of_isBlank blank), bareMark_of_isBlank blank,
      ih fun d member => h d (List.mem_cons_of_mem c member)]
    rfl

theorem bracket_notMem_escapedMark (c d : Char) : Mark.bracket d ∉ escapedMark c := by
  rw [escapedMark]
  split <;> simp

theorem bracket_mem_bareMark {c : Char} (h : isBracket c = true) : Mark.bracket c ∈ bareMark c := by
  have noComma : c ≠ ',' := by
    rintro rfl
    cases h
  rw [bareMark, if_neg noComma, if_pos h]
  exact List.mem_singleton_self _

theorem of_bracket_mem_bareMark {c d : Char} (h : Mark.bracket d ∈ bareMark c) :
    d = c ∧ isBracket c = true := by
  rw [bareMark] at h
  split at h
  · simp at h
  · split at h
    · next bracket => exact ⟨by simpa using h, bracket⟩
    · cases h

/-- A bracket among the marks of a text is a character of it. -/
theorem of_bracket_mem_marks {text : List Char} {c : Char} (h : Mark.bracket c ∈ marks text) :
    c ∈ text ∧ isBracket c = true := by
  fun_induction marks text with
  | case1 => cases h
  | case2 d =>
    obtain ⟨rfl, bracket⟩ := of_bracket_mem_bareMark h
    exact ⟨List.mem_cons_self, bracket⟩
  | case3 d text ih =>
    obtain ⟨inText, bracket⟩ := ih ((List.mem_append.1 h).resolve_left (bracket_notMem_escapedMark d c))
    exact ⟨List.mem_cons_of_mem _ (List.mem_cons_of_mem _ inText), bracket⟩
  | case4 d e text plain ih =>
    rcases List.mem_append.1 h with inFirst | inText
    · obtain ⟨rfl, bracket⟩ := of_bracket_mem_bareMark inFirst
      exact ⟨List.mem_cons_self, bracket⟩
    · obtain ⟨member, bracket⟩ := ih inText
      exact ⟨List.mem_cons_of_mem _ member, bracket⟩

/-! ## Levels of one kind of brackets -/

/-- The three kinds of brackets. -/
inductive Matching : Char → Char → Prop
  | round : Matching '(' ')'
  | brace : Matching '{' '}'
  | square : Matching '[' ']'

theorem Matching.opensBracket_eq {opening closing : Char} (h : Matching opening closing) :
    opensBracket opening = true := by
  cases h <;> decide

theorem Matching.plain {opening closing : Char} (h : Matching opening closing) :
    opening ≠ '\\' ∧ closing ≠ '\\' := by
  cases h <;> decide

/-- The level behind marks, from the level in front of them, unless a bracket closes level zero. -/
def level? (opening closing : Char) : Nat → List Mark → Option Nat
  | depth, [] => some depth
  | depth, .comma _ :: more => level? opening closing depth more
  | depth, .bracket c :: more =>
    if c = closing ∧ depth = 0 then none
    else
      level? opening closing
        (if c = opening then depth + 1 else if c = closing then depth - 1 else depth) more

theorem Matching.level?_bare {opening closing : Char} (h : Matching opening closing) (depth : Nat)
    (c : Char) (more : List Mark) :
    level? opening closing depth (bareMark c ++ more) =
      if c = closing ∧ depth = 0 then none
      else
        level? opening closing
          (if c = opening then depth + 1 else if c = closing then depth - 1 else depth) more := by
  rw [bareMark]
  by_cases comma : c = ','
  · subst comma
    have other : ',' ≠ opening ∧ ',' ≠ closing := by cases h <;> decide
    simp [level?, other]
  · rw [if_neg comma]
    cases bracket : isBracket c with
    | true => rfl
    | false =>
      have other : c ≠ opening ∧ c ≠ closing := by
        cases h <;> refine ⟨?_, ?_⟩ <;> rintro rfl <;> exact absurd bracket (by decide)
      simp [other]

theorem level?_escaped (opening closing : Char) (depth : Nat) (c : Char) (more : List Mark) :
    level? opening closing depth (escapedMark c ++ more) = level? opening closing depth more := by
  rw [escapedMark]
  split <;> rfl

/-- The contents of a bracket: a paired text in which brackets of the kind are closed. -/
def Encloses (opening closing : Char) (contents : List Char) : Prop :=
  Paired contents ∧ level? opening closing 0 (marks contents) = some 0

/-- Where no bracket of a kind opens, none closes either. -/
theorem closing_notMem_of_level? {opening closing : Char} {more : List Mark}
    (level : level? opening closing 0 more ≠ none) (noOpening : Mark.bracket opening ∉ more) :
    Mark.bracket closing ∉ more := by
  induction more with
  | nil => exact List.not_mem_nil
  | cons mark more ih =>
    rw [List.mem_cons, not_or] at noOpening ⊢
    cases mark with
    | comma escaped =>
      rw [level?] at level
      exact ⟨by simp, ih level noOpening.2⟩
    | bracket c =>
      have noClose : c ≠ closing := by
        rintro rfl
        exact level (by rw [level?, if_pos ⟨rfl, rfl⟩])
      have noOpen : c ≠ opening := by
        rintro rfl
        exact noOpening.1 rfl
      rw [level?, if_neg (fun closes => noClose closes.1), if_neg noOpen, if_neg noClose] at level
      exact ⟨fun same => noClose (Mark.bracket.inj same).symm, ih level noOpening.2⟩

/-- Contents without an opening bracket of the kind hold no bare closing one. -/
theorem Encloses.closing_notMem {opening closing : Char} {contents : List Char}
    (h : Encloses opening closing contents) (noOpening : opening ∉ contents) :
    Mark.bracket closing ∉ marks contents :=
  closing_notMem_of_level? (by simp [h.2]) fun member => noOpening (of_bracket_mem_marks member).1

theorem closeBracket?_bare {opening closing : Char} {c : Char} (plain : c ≠ '\\') (depth : Nat)
    (text : List Char) :
    closeBracket? opening closing depth (c :: text) =
      if c = closing ∧ depth = 0 then some ([], text)
      else
        (closeBracket? opening closing
          (if c = opening then depth + 1 else if c = closing then depth - 1 else depth) text).map
          fun (contents, rest) => (c :: contents, rest) := by
  cases text with
  | nil => rfl
  | cons d text =>
    rw [closeBracket?, if_neg plain]
    split
    · rfl
    · simp only
      split
      · next missing => rw [missing]; rfl
      · next found => rw [found]; rfl

theorem closeBracket?_escaped (opening closing : Char) (depth : Nat) (c : Char)
    (text : List Char) :
    closeBracket? opening closing depth ('\\' :: c :: text) =
      (closeBracket? opening closing depth text).map
        fun (contents, rest) => ('\\' :: c :: contents, rest) := by
  rw [closeBracket?, if_pos rfl]
  split
  · next missing => rw [missing]; rfl
  · next found => rw [found]; rfl

/-- A text in which the level ends is cut at the bracket behind it. -/
theorem closeBracket?_append {opening closing : Char} (h : Matching opening closing)
    {contents : List Char} (paired : Paired contents) {depth : Nat}
    (closed : level? opening closing depth (marks contents) = some 0) (rest : List Char) :
    closeBracket? opening closing depth (contents ++ closing :: rest) = some (contents, rest) := by
  induction paired generalizing depth with
  | nil =>
    obtain rfl : depth = 0 := Option.some.inj closed
    rw [List.nil_append, closeBracket?_bare h.plain.2, if_pos ⟨rfl, rfl⟩]
  | bare plain _ ih =>
    rw [marks_bare plain, h.level?_bare] at closed
    rw [List.cons_append, closeBracket?_bare plain]
    split at closed
    · cases closed
    · next stays =>
      rw [if_neg stays, ih closed]
      rfl
  | escaped _ ih =>
    rw [marks_escaped, level?_escaped] at closed
    rw [List.cons_append, List.cons_append, closeBracket?_escaped, ih closed]
    rfl

/-- There is no other cut. -/
theorem of_closeBracket? {opening closing : Char} (h : Matching opening closing) {depth : Nat}
    {text contents rest : List Char}
    (cut : closeBracket? opening closing depth text = some (contents, rest)) :
    text = contents ++ closing :: rest ∧ Paired contents ∧
      level? opening closing depth (marks contents) = some 0 := by
  fun_induction closeBracket? opening closing depth text generalizing contents with
  | case1 => cases cut
  | case2 depth c closes =>
    cases cut
    obtain ⟨rfl, rfl⟩ := closes
    exact ⟨rfl, .nil, rfl⟩
  | case3 => cases cut
  | case4 => cases cut
  | case5 depth d text contents' rest' found ih =>
    cases cut
    obtain ⟨rfl, paired, closed⟩ := ih found
    exact ⟨rfl, .escaped paired, by rw [marks_escaped, level?_escaped, closed]⟩
  | case6 depth c d text plain closes =>
    cases cut
    obtain ⟨rfl, rfl⟩ := closes
    exact ⟨rfl, .nil, rfl⟩
  | case7 => cases cut
  | case8 =>
    rename_i depth c d text plain stays _ contents' rest' found ih
    cases cut
    obtain ⟨equal, paired, closed⟩ := ih found
    refine ⟨by rw [equal]; rfl, .bare plain paired, ?_⟩
    rw [marks_bare plain, h.level?_bare, if_neg stays, closed]

end Phrasebook
