import Phrasebook.Value.Trivia

/-!
# Texts of blanks and comments

`Trivia` describes the texts that consist of blanks and complete comments, and `Solid` those that
begin with neither. `skipTrivia` drops the former whatever stands behind them
(`Trivia.skipTrivia_append`) and leaves the latter alone (`skipTrivia_of_solid`). There is no third
way to stop in front of a character: `trivia_of_skipTrivia`.
-/

namespace Phrasebook.Value

open Phrasebook.Text

/-- Blanks and complete comments: one that runs to the end of a line includes the first line break
behind its opening, and one between `/*` and `*/` ends at the first `*/`. -/
inductive Trivia : List Char → Prop
  | nil : Trivia []
  | blank {c : Char} {rest : List Char} : isBlank c = true → Trivia rest → Trivia (c :: rest)
  | hash {body rest : List Char} {b : Char} :
    (∀ c ∈ body, isLineBreak c = false) → isLineBreak b = true → Trivia rest →
    Trivia ('#' :: (body ++ b :: rest))
  | slashes {body rest : List Char} {b : Char} :
    (∀ c ∈ body, isLineBreak c = false) → isLineBreak b = true → Trivia rest →
    Trivia ('/' :: '/' :: (body ++ b :: rest))
  | block {body rest : List Char} :
    ¬ ['*', '/'] <:+: body ++ ['*'] → Trivia rest →
    Trivia ('/' :: '*' :: (body ++ '*' :: '/' :: rest))

/-- Texts that begin with neither a blank nor a comment. -/
def Solid : List Char → Prop
  | [] => False
  | [c] => isBlank c = false ∧ c ≠ '#'
  | c :: d :: _ => isBlank c = false ∧ c ≠ '#' ∧ ¬ (c = '/' ∧ (d = '/' ∨ d = '*'))

/-- The first character of trivia is blank or begins a comment. -/
theorem Trivia.head {c : Char} {trivia : List Char} (h : Trivia (c :: trivia)) :
    isBlank c = true ∨ c = '#' ∨ c = '/' := by
  cases h with
  | blank blank _ => exact .inl blank
  | hash => exact .inr (.inl rfl)
  | slashes => exact .inr (.inr rfl)
  | block => exact .inr (.inr rfl)

theorem trivia_of_isBlank {blanks : List Char} (h : ∀ c ∈ blanks, isBlank c = true) :
    Trivia blanks := by
  induction blanks with
  | nil => exact .nil
  | cons c blanks ih =>
    obtain ⟨first, later⟩ := List.forall_mem_cons.1 h
    exact .blank first (ih later)

/-- A text stays solid in front of a text that does not turn its first character into a comment. -/
theorem Solid.append {front back : List Char} (h : Solid front)
    (begins : ∀ c ∈ back.head?, c ≠ '/' ∧ c ≠ '*') : Solid (front ++ back) := by
  match front, h with
  | [c], ⟨stays, noHash⟩ =>
    cases back with
    | nil => exact ⟨stays, noHash⟩
    | cons d back =>
      obtain ⟨noSlash, noStar⟩ := begins d rfl
      exact ⟨stays, noHash, fun ⟨_, opens⟩ => opens.elim noSlash noStar⟩
  | c :: d :: tail, h => exact h

/-! ## Dropping trivia in front of any text -/

theorem skipLineComment_append {body : List Char} {b : Char} (rest : List Char)
    (inLine : ∀ c ∈ body, isLineBreak c = false) (ends : isLineBreak b = true) :
    skipLineComment (body ++ b :: rest) = skipTrivia rest := by
  induction body with
  | nil => simp [skipLineComment, ends]
  | cons c body ih =>
    have first : isLineBreak c = false := inLine c (by simp)
    have later := ih fun d member => inLine d (by simp [member])
    simpa [skipLineComment, first] using later

/-- The comment ends at the first `*/`; the character in front of the text counts as well. -/
theorem skipBlockComment_append {opening body : List Char} {last : Char} (rest : List Char)
    (inside : ¬ ['*', '/'] <:+: last :: body ++ ['*']) :
    skipBlockComment opening last (body ++ '*' :: '/' :: rest) = skipTrivia rest := by
  induction body generalizing last with
  | nil =>
    have star : ¬ (last = '*' ∧ '*' = '/') := by simp
    rw [List.nil_append, skipBlockComment, if_neg star, skipBlockComment]
    simp
  | cons c body ih =>
    have stays : ¬ (last = '*' ∧ c = '/') := by
      rintro ⟨rfl, rfl⟩
      exact inside ⟨[], body ++ ['*'], by simp⟩
    have later : ¬ ['*', '/'] <:+: c :: body ++ ['*'] := fun found =>
      inside (found.trans (List.suffix_cons last _).isInfix)
    rw [List.cons_append, skipBlockComment, if_neg stays]
    exact ih later

/-- Trivia are dropped, whatever stands behind them. -/
theorem Trivia.skipTrivia_append {trivia : List Char} (h : Trivia trivia) (text : List Char) :
    skipTrivia (trivia ++ text) = skipTrivia text := by
  have hash : isBlank '#' = false := by decide
  have slash : isBlank '/' = false := by decide
  induction h with
  | nil => rfl
  | blank blank _ ih => rw [List.cons_append, skipTrivia, if_pos blank, ih]
  | hash inLine ends _ ih =>
    rw [List.cons_append, List.append_assoc, List.cons_append, skipTrivia]
    simp only [hash, Bool.false_eq_true, if_false, if_true]
    rw [skipLineComment_append _ inLine ends, ih]
  | slashes inLine ends _ ih =>
    rw [List.cons_append, List.cons_append, List.append_assoc, List.cons_append, skipTrivia]
    simp only [slash, Bool.false_eq_true, if_false, if_true, skipAfterSlash,
      Char.reduceEq]
    rw [skipLineComment_append _ inLine ends, ih]
  | @block body rest inside _ ih =>
    have behind : ¬ ['*', '/'] <:+: ' ' :: body ++ ['*'] := by
      intro found
      rcases List.infix_cons_iff.1 found with front | later
      · obtain ⟨tail, equal⟩ := front
        simp at equal
      · exact inside later
    rw [List.cons_append, List.cons_append, List.append_assoc, List.cons_append, List.cons_append,
      skipTrivia]
    simp only [slash, Bool.false_eq_true, if_false, if_true, skipAfterSlash, Char.reduceEq]
    rw [skipBlockComment_append _ behind, ih]

/-! ## What is dropped is trivia -/

theorem Solid.isBlank_eq_false {c : Char} {tail : List Char} (h : Solid (c :: tail)) :
    isBlank c = false := by
  cases tail with
  | nil => exact h.1
  | cons d tail => exact h.1

theorem solid_cons {c : Char} (tail : List Char) (blank : isBlank c = false) (hash : c ≠ '#')
    (slash : c ≠ '/') : Solid (c :: tail) := by
  cases tail with
  | nil => exact ⟨blank, hash⟩
  | cons d tail => exact ⟨blank, hash, fun comment => slash comment.1⟩

theorem skipTrivia_of_solid {text : List Char} (h : Solid text) : skipTrivia text = .ok text := by
  match text, h with
  | [c], ⟨blank, hash⟩ =>
    by_cases slash : c = '/'
    · subst slash; rfl
    · simp [skipTrivia, blank, hash, slash]
  | c :: d :: tail, ⟨blank, hash, comment⟩ =>
    by_cases slash : c = '/'
    · subst slash
      have opens : d ≠ '/' ∧ d ≠ '*' := by simpa using comment
      simp [skipTrivia, blank, skipAfterSlash, opens]
    · simp [skipTrivia, blank, hash, slash]

/-- Where `skipTrivia` stops in front of a character, it has dropped trivia, and has to stop. -/
theorem trivia_of_skipTrivia {text tail : List Char} {c : Char}
    (h : skipTrivia text = .ok (c :: tail)) :
    ∃ trivia, Trivia trivia ∧ text = trivia ++ c :: tail ∧ Solid (c :: tail) := by
  revert h
  refine skipTrivia.induct
    (fun text => skipTrivia text = .ok (c :: tail) →
      ∃ trivia, Trivia trivia ∧ text = trivia ++ c :: tail ∧ Solid (c :: tail))
    (fun text => skipAfterSlash text = .ok (c :: tail) →
      ∃ trivia, Trivia trivia ∧ '/' :: text = trivia ++ c :: tail ∧ Solid (c :: tail))
    (fun opening last text => skipBlockComment opening last text = .ok (c :: tail) →
      ∃ body trivia, ¬ ['*', '/'] <:+: body ++ ['*'] ∧ Trivia trivia ∧
        last :: text = body ++ '*' :: '/' :: (trivia ++ c :: tail) ∧ Solid (c :: tail))
    (fun text => skipLineComment text = .ok (c :: tail) →
      ∃ body b trivia, (∀ d ∈ body, isLineBreak d = false) ∧ isLineBreak b = true ∧
        Trivia trivia ∧ text = body ++ b :: (trivia ++ c :: tail) ∧ Solid (c :: tail))
    ?nil ?blank ?hash ?slash ?stop ?slashNil ?slashLine ?slashBlock ?slashStop ?blockNil
    ?blockEnd ?blockStep ?lineNil ?lineEnd ?lineStep text
  case nil => intro h; simp [skipTrivia] at h
  case blank =>
    intro d text blank ih h
    rw [skipTrivia, if_pos blank] at h
    obtain ⟨trivia, isTrivia, rfl, solid⟩ := ih h
    exact ⟨d :: trivia, .blank blank isTrivia, rfl, solid⟩
  case hash =>
    intro text blank ih h
    rw [skipTrivia, if_neg blank, if_pos rfl] at h
    obtain ⟨body, b, trivia, inLine, ends, isTrivia, rfl, solid⟩ := ih h
    exact ⟨_, .hash inLine ends isTrivia, by simp, solid⟩
  case slash =>
    intro text blank other ih h
    rw [skipTrivia, if_neg blank, if_neg other, if_pos rfl] at h
    exact ih h
  case stop =>
    intro d text blank other another h
    rw [skipTrivia, if_neg blank, if_neg other, if_neg another] at h
    have solid : Solid (d :: text) := solid_cons text (by simpa using blank) other another
    exact ⟨[], .nil, Except.ok.inj h, Except.ok.inj h ▸ solid⟩
  case slashNil =>
    intro h
    have solid : Solid ['/'] := ⟨by decide, by decide⟩
    exact ⟨[], .nil, Except.ok.inj h, Except.ok.inj h ▸ solid⟩
  case slashLine =>
    intro text ih h
    rw [skipAfterSlash, if_pos rfl] at h
    obtain ⟨body, b, trivia, inLine, ends, isTrivia, rfl, solid⟩ := ih h
    exact ⟨_, .slashes inLine ends isTrivia, by simp, solid⟩
  case slashBlock =>
    intro text other ih h
    rw [skipAfterSlash, if_neg other, if_pos rfl] at h
    obtain ⟨body, trivia, inside, isTrivia, equal, solid⟩ := ih h
    -- the blank that stands for the star of the opening is the first character of the body
    cases body with
    | nil => simp at equal
    | cons blank body =>
      obtain ⟨rfl, rfl⟩ := List.cons.inj equal
      have inBody : ¬ ['*', '/'] <:+: body ++ ['*'] := fun found =>
        inside (found.trans (List.suffix_cons ' ' _).isInfix)
      exact ⟨_, .block inBody isTrivia, by simp, solid⟩
  case slashStop =>
    intro d text other another h
    rw [skipAfterSlash, if_neg other, if_neg another] at h
    have solid : Solid ('/' :: d :: text) := ⟨by decide, by decide, by simp [other, another]⟩
    exact ⟨[], .nil, Except.ok.inj h, Except.ok.inj h ▸ solid⟩
  case blockNil => intro opening last h; simp [skipBlockComment] at h
  case blockEnd =>
    intro opening last d text closes ih h
    rw [skipBlockComment, if_pos closes] at h
    obtain ⟨rfl, rfl⟩ := closes
    obtain ⟨trivia, isTrivia, rfl, solid⟩ := ih h
    refine ⟨[], trivia, ?_, isTrivia, rfl, solid⟩
    rintro ⟨front, back, equal⟩
    have := congrArg List.length equal
    simp at this
    omega
  case blockStep =>
    intro opening last d text stays ih h
    rw [skipBlockComment, if_neg stays] at h
    obtain ⟨body, trivia, inside, isTrivia, equal, solid⟩ := ih h
    refine ⟨last :: body, trivia, ?_, isTrivia, by rw [equal]; rfl, solid⟩
    intro found
    rcases List.infix_cons_iff.1 found with front | later
    · cases body with
      | nil =>
        obtain ⟨tail, equal⟩ := front
        simp at equal
      | cons first body =>
        obtain ⟨rfl, -⟩ := List.cons.inj equal
        obtain ⟨tail, equal⟩ := front
        simp at equal
        exact stays ⟨equal.1.symm, equal.2.1.symm⟩
    · exact inside later
  case lineNil => intro h; simp [skipLineComment] at h
  case lineEnd =>
    intro d text ends ih h
    rw [skipLineComment, if_pos ends] at h
    obtain ⟨trivia, isTrivia, rfl, solid⟩ := ih h
    exact ⟨[], d, trivia, by simp, ends, isTrivia, rfl, solid⟩
  case lineStep =>
    intro d text stays ih h
    rw [skipLineComment, if_neg stays] at h
    obtain ⟨body, b, trivia, inLine, ends, isTrivia, rfl, solid⟩ := ih h
    refine ⟨d :: body, b, trivia, fun e member => ?_, ends, isTrivia, rfl, solid⟩
    rcases List.mem_cons.1 member with rfl | later
    · simpa using stays
    · exact inLine e later

end Phrasebook.Value
