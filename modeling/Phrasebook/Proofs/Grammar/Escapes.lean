import Phrasebook.Grammar.Brackets

/-!
# Escapes and blanks at the ends of a text

`Paired` texts are those in which every backslash that escapes has a character behind it; a text that is
read escape by escape can be cut only where both pieces are paired (`Paired.cut`). A paired text is `Neat`
if no bare blank ends it. `trimUnescaped` takes bare blanks off both sides, and what it leaves is neat:
`exists_trimUnescaped` and `trimUnescaped_of_neat`.
-/

namespace Phrasebook

open Phrasebook.Text

/-! ## Escapes -/

/-- Characters that escape nothing, and backslashes with the character behind them. -/
inductive Paired : List Char → Prop
  | nil : Paired []
  | bare {c : Char} {text : List Char} : c ≠ '\\' → Paired text → Paired (c :: text)
  | escaped {c : Char} {text : List Char} : Paired text → Paired ('\\' :: c :: text)

theorem paired_cons {c : Char} (plain : c ≠ '\\') {text : List Char} :
    Paired (c :: text) ↔ Paired text := by
  refine ⟨fun h => ?_, .bare plain⟩
  cases h with
  | bare _ later => exact later
  | escaped _ => exact absurd rfl plain

theorem paired_escaped {c : Char} {text : List Char} :
    Paired ('\\' :: c :: text) ↔ Paired text := by
  refine ⟨fun h => ?_, .escaped⟩
  cases h with
  | bare plain _ => exact absurd rfl plain
  | escaped later => exact later

theorem Paired.append {front back : List Char} (h : Paired front) (h' : Paired back) :
    Paired (front ++ back) := by
  induction h with
  | nil => exact h'
  | bare plain _ ih => exact .bare plain ih
  | escaped _ ih => exact .escaped ih

theorem Paired.of_append {front back : List Char} (h : Paired front)
    (whole : Paired (front ++ back)) : Paired back := by
  induction h with
  | nil => exact whole
  | bare plain _ ih => exact ih ((paired_cons plain).1 whole)
  | escaped _ ih => exact ih (paired_escaped.1 whole)

/-- A paired text is cut between escapes, or through the middle of one. -/
theorem Paired.cut {front back : List Char} (h : Paired (front ++ back)) :
    (Paired front ∧ Paired back) ∨
      ∃ inner c later, front = inner ++ ['\\'] ∧ back = c :: later ∧ Paired inner ∧
        Paired later := by
  generalize equal : front ++ back = text at h
  induction h generalizing front with
  | nil =>
    obtain ⟨rfl, rfl⟩ := List.append_eq_nil_iff.1 equal
    exact .inl ⟨.nil, .nil⟩
  | @bare c text plain later ih =>
    cases front with
    | nil =>
      rw [List.nil_append] at equal
      exact .inl ⟨.nil, equal ▸ .bare plain later⟩
    | cons d front =>
      obtain ⟨rfl, rest⟩ := List.cons.inj equal
      rcases ih rest with ⟨isFront, isBack⟩ | ⟨inner, e, behind, rfl, isBack, isInner, isBehind⟩
      · exact .inl ⟨.bare plain isFront, isBack⟩
      · exact .inr ⟨d :: inner, e, behind, rfl, isBack, .bare plain isInner, isBehind⟩
  | @escaped c text later ih =>
    match front with
    | [] =>
      rw [List.nil_append] at equal
      exact .inl ⟨.nil, equal ▸ .escaped later⟩
    | [d] =>
      obtain ⟨rfl, rest⟩ := List.cons.inj equal
      exact .inr ⟨[], c, text, rfl, rest, .nil, later⟩
    | d :: e :: front =>
      simp only [List.cons_append, List.cons.injEq] at equal
      obtain ⟨rfl, rfl, rest⟩ := equal
      rcases ih rest with ⟨isFront, isBack⟩ | ⟨inner, e', behind, rfl, isBack, isInner, isBehind⟩
      · exact .inl ⟨.escaped isFront, isBack⟩
      · exact .inr ⟨'\\' :: e :: inner, e', behind, rfl, isBack, .escaped isInner, isBehind⟩

/-- A paired text is not cut behind a character that is no backslash but between escapes. -/
theorem Paired.of_getLast? {front back : List Char} (h : Paired (front ++ back)) {c : Char}
    (last : front.getLast? = some c) (plain : c ≠ '\\') : Paired front := by
  rcases h.cut with ⟨isFront, -⟩ | ⟨inner, d, later, rfl, -⟩
  · exact isFront
  · rw [List.getLast?_concat] at last
    exact absurd (Option.some.inj last).symm plain

/-- Half an escape is not paired. -/
theorem not_paired_concat {text : List Char} (h : Paired text) : ¬ Paired (text ++ ['\\']) := by
  intro whole
  have half := h.of_append whole
  cases half with
  | bare plain _ => exact plain rfl

/-- A paired text ends with a bare character or with an escape. -/
theorem Paired.exists_last {text : List Char} (h : Paired text) (some : text ≠ []) :
    (∃ front c, text = front ++ [c] ∧ Paired front ∧ c ≠ '\\') ∨
      ∃ front c, text = front ++ ['\\', c] ∧ Paired front := by
  induction h with
  | nil => exact absurd rfl some
  | @bare c text plain later ih =>
    cases text with
    | nil => exact .inl ⟨[], c, rfl, .nil, plain⟩
    | cons d text =>
      rcases ih (List.cons_ne_nil d text) with ⟨front, e, equal, isFront, bare⟩ |
        ⟨front, e, equal, isFront⟩
      · exact .inl ⟨c :: front, e, by rw [equal]; rfl, .bare plain isFront, bare⟩
      · exact .inr ⟨c :: front, e, by rw [equal]; rfl, .bare plain isFront⟩
  | @escaped c text later ih =>
    cases text with
    | nil => exact .inr ⟨[], c, rfl, .nil⟩
    | cons d text =>
      rcases ih (List.cons_ne_nil d text) with ⟨front, e, equal, isFront, bare⟩ |
        ⟨front, e, equal, isFront⟩
      · exact .inl ⟨'\\' :: c :: front, e, by rw [equal]; rfl, .escaped isFront, bare⟩
      · exact .inr ⟨'\\' :: c :: front, e, by rw [equal]; rfl, .escaped isFront⟩

/-- A text that is not paired ends with half an escape. -/
theorem paired_or_half (text : List Char) :
    Paired text ∨ ∃ front, text = front ++ ['\\'] ∧ Paired front := by
  match text with
  | [] => exact .inl .nil
  | [c] =>
    by_cases backslash : c = '\\'
    · exact .inr ⟨[], by rw [backslash]; rfl, .nil⟩
    · exact .inl (.bare backslash .nil)
  | c :: d :: text =>
    by_cases backslash : c = '\\'
    · subst backslash
      rcases paired_or_half text with paired | ⟨front, rfl, isFront⟩
      · exact .inl (.escaped paired)
      · exact .inr ⟨'\\' :: d :: front, rfl, .escaped isFront⟩
    · rcases paired_or_half (d :: text) with paired | ⟨front, equal, isFront⟩
      · exact .inl (.bare backslash paired)
      · exact .inr ⟨c :: front, by rw [equal]; rfl, .bare backslash isFront⟩

theorem paired_of_getLast? {text : List Char} {c : Char} (last : text.getLast? = some c)
    (plain : c ≠ '\\') : Paired text := by
  rcases paired_or_half text with paired | ⟨front, rfl, -⟩
  · exact paired
  · rw [List.getLast?_concat] at last
    exact absurd (Option.some.inj last).symm plain

/-! ## Neat texts -/

/-- Paired texts that no bare blank ends. -/
def Neat (text : List Char) : Prop :=
  Paired text ∧ ∀ front c, text = front ++ [c] → Paired front → isBlank c = false

theorem neat_nil : Neat [] :=
  ⟨.nil, fun front c equal _ => by simp at equal⟩

theorem neat_bare {front : List Char} (h : Paired front) {c : Char} (plain : c ≠ '\\')
    (stays : isBlank c = false) : Neat (front ++ [c]) := by
  refine ⟨h.append (.bare plain .nil), fun front' d equal _ => ?_⟩
  obtain ⟨-, same⟩ := List.append_inj' equal rfl
  rw [← (List.cons.inj same).1]
  exact stays

theorem neat_escaped {front : List Char} (h : Paired front) (c : Char) :
    Neat (front ++ ['\\', c]) := by
  refine ⟨h.append (.escaped .nil), fun front' d equal paired => ?_⟩
  have divide : front ++ ['\\', c] = (front ++ ['\\']) ++ [c] := by simp
  rw [divide] at equal
  obtain ⟨rfl, -⟩ := List.append_inj' equal rfl
  exact absurd paired (not_paired_concat h)

/-- A neat text stays neat behind any paired text. -/
theorem Neat.append {front back : List Char} (h : Paired front) (h' : Neat back)
    (some : back ≠ []) : Neat (front ++ back) := by
  obtain ⟨paired, ends⟩ := h'
  refine ⟨h.append paired, fun front' c equal isFront => ?_⟩
  obtain ⟨inner, last, rfl⟩ : ∃ inner last, back = inner ++ [last] :=
    ⟨_, _, (List.dropLast_concat_getLast some).symm⟩
  rw [← List.append_assoc] at equal
  obtain ⟨rfl, same⟩ := List.append_inj' equal rfl
  rw [← (List.cons.inj same).1]
  exact ends inner last rfl (h.of_append isFront)

theorem Neat.of_append {front back : List Char} (h : Paired front) (whole : Neat (front ++ back)) :
    Neat back := by
  refine ⟨h.of_append whole.1, fun inner c equal isInner => ?_⟩
  refine whole.2 (front ++ inner) c ?_ (h.append isInner)
  rw [equal, List.append_assoc]

theorem neat_of_getLast? {text : List Char} (h : Paired text) {c : Char}
    (last : text.getLast? = some c) (stays : isBlank c = false) : Neat text := by
  refine ⟨h, fun front d equal _ => ?_⟩
  rw [equal, List.getLast?_concat] at last
  rw [Option.some.inj last]
  exact stays

/-- Whether a text is neat. -/
def isNeat : List Char → Bool
  | [] => true
  | [c] => c ≠ '\\' && !isBlank c
  | c :: d :: text => if c = '\\' then isNeat text else isNeat (d :: text)

theorem isNeat_iff (text : List Char) : isNeat text = true ↔ Neat text := by
  fun_induction isNeat text with
  | case1 => exact ⟨fun _ => neat_nil, fun _ => rfl⟩
  | case2 c =>
    rw [Bool.and_eq_true, decide_eq_true_eq, Bool.not_eq_true']
    refine ⟨fun ⟨plain, stays⟩ => neat_bare .nil plain stays, fun ⟨paired, ends⟩ => ?_⟩
    refine ⟨?_, ends [] c rfl .nil⟩
    rintro rfl
    exact not_paired_concat .nil paired
  | case3 d text ih =>
    rw [ih]
    refine ⟨fun neat => ?_, Neat.of_append (.escaped .nil : Paired ['\\', d])⟩
    cases text with
    | nil => exact neat_escaped .nil d
    | cons e text => exact Neat.append (.escaped .nil : Paired ['\\', d]) neat (List.cons_ne_nil e text)
  | case4 c d text plain ih =>
    rw [ih]
    have isFront : Paired [c] := .bare plain .nil
    exact ⟨fun neat => Neat.append isFront neat (List.cons_ne_nil d text), Neat.of_append isFront⟩

instance (text : List Char) : Decidable (Neat text) :=
  decidable_of_iff (isNeat text = true) (isNeat_iff text)

/-! ## Trimming -/

theorem trailingBackslashes_concat (text : List Char) (c : Char) :
    trailingBackslashes (text ++ [c]) = if c = '\\' then trailingBackslashes text + 1 else 0 := by
  rw [trailingBackslashes, List.reverse_concat, List.takeWhile_cons]
  by_cases backslash : c = '\\'
  · simp [backslash, trailingBackslashes]
  · simp [backslash]

/-- Backslashes at the end of a paired text escape each other. -/
theorem Paired.even_trailingBackslashes {text : List Char} (h : Paired text) :
    trailingBackslashes text % 2 = 0 := by
  by_cases empty : text = []
  · subst empty
    rfl
  rcases h.exists_last empty with ⟨front, c, equal, -, plain⟩ | ⟨front, c, equal, isFront⟩
  · rw [equal, trailingBackslashes_concat, if_neg plain]
  · have shorter : front.length < text.length := by
      rw [equal, List.length_append]
      simp
    have even := isFront.even_trailingBackslashes
    have divide : front ++ ['\\', c] = (front ++ ['\\']) ++ [c] := by simp
    rw [equal, divide, trailingBackslashes_concat]
    by_cases backslash : c = '\\'
    · rw [if_pos backslash, trailingBackslashes_concat, if_pos rfl]
      omega
    · rw [if_neg backslash]
termination_by text.length

theorem paired_of_blank {blanks : List Char} (h : ∀ c ∈ blanks, isBlank c = true) :
    Paired blanks := by
  induction blanks with
  | nil => exact .nil
  | cons c blanks ih =>
    have plain : c ≠ '\\' := by
      rintro rfl
      exact absurd (h '\\' List.mem_cons_self) (by decide)
    exact .bare plain (ih fun d member => h d (List.mem_cons_of_mem c member))

/-- What stands between blanks is left by trimming, if it is neat and does not begin with a blank. -/
theorem trimUnescaped_of_neat {front core back : List Char} (inFront : ∀ c ∈ front, isBlank c = true)
    (inBack : ∀ c ∈ back, isBlank c = true) (starts : ∀ c ∈ core.head?, isBlank c = false)
    (neat : Neat core) : trimUnescaped (front ++ (core ++ back)) = core := by
  obtain ⟨paired, ends⟩ := neat
  by_cases empty : core = []
  · subst empty
    have nothing : trimStart (front ++ ([] ++ back)) = [] := by
      rw [trimStart_append inFront, List.nil_append, ← List.append_nil back,
        trimStart_append inBack]
      rfl
    rw [trimUnescaped, nothing]
    rfl
  have start : trimStart (front ++ (core ++ back)) = core ++ back := by
    rw [trimStart_append inFront]
    apply trimStart_of_head
    cases core with
    | nil => exact absurd rfl empty
    | cons d core => exact starts
  rw [trimUnescaped, start, trimEnd_append inBack]
  rcases paired.exists_last empty with ⟨inner, c, rfl, isInner, plain⟩ | ⟨inner, c, rfl, isInner⟩
  · have stays := ends inner c rfl isInner
    have even : trailingBackslashes (inner ++ [c]) % 2 = 0 := paired.even_trailingBackslashes
    simp only [trimEnd_concat stays, even, if_true]
  · have divide : inner ++ ['\\', c] = (inner ++ ['\\']) ++ [c] := by simp
    cases blank : isBlank c with
    | false =>
      have even := paired.even_trailingBackslashes
      rw [divide] at even ⊢
      simp only [trimEnd_concat blank, even, if_true]
    | true =>
      have backslash : isBlank '\\' = false := by decide
      have odd : ¬ trailingBackslashes (inner ++ ['\\']) % 2 = 0 := by
        have even := isInner.even_trailingBackslashes
        rw [trailingBackslashes_concat, if_pos rfl]
        omega
      have trimmed : trimEnd (inner ++ ['\\', c]) = inner ++ ['\\'] := by
        rw [divide, trimEnd_append (by simpa using blank), trimEnd_concat backslash]
      simp only [trimmed, odd, if_false]
      rw [divide, List.append_assoc, List.take_length_add_append]
      rfl

theorem trimUnescaped_cons_blank {c : Char} (blank : isBlank c = true) (text : List Char) :
    trimUnescaped (c :: text) = trimUnescaped text := by
  have start : trimStart (c :: text) = trimStart text := List.dropWhile_cons_of_pos blank
  rw [trimUnescaped, start, trimUnescaped]

theorem trimUnescaped_self {text : List Char} (starts : ∀ c ∈ text.head?, isBlank c = false)
    (neat : Neat text) : trimUnescaped text = text := by
  have trimmed := @trimUnescaped_of_neat [] text [] (by simp) (by simp) starts neat
  rwa [List.nil_append, List.append_nil] at trimmed

/-- Texts with more than blanks in them and no blank to trim. -/
structure Tidy (text : List Char) : Prop where
  nonempty : text ≠ []
  starts : ∀ c ∈ text.head?, isBlank c = false
  neat : Neat text

theorem Tidy.trimUnescaped_eq {text : List Char} (h : Tidy text) : trimUnescaped text = text :=
  trimUnescaped_self h.starts h.neat

/-- A tidy text begins as it did, whatever is put behind it. -/
theorem Tidy.append {front back : List Char} (h : Tidy front) (neat : Neat back)
    (some : back ≠ []) : Tidy (front ++ back) where
  nonempty := by simp [h.nonempty]
  starts := by
    obtain ⟨c, tail, rfl⟩ := List.exists_cons_of_ne_nil h.nonempty
    exact h.starts
  neat := Neat.append h.neat.1 neat some

/-- Tidy texts with a blank between them. -/
theorem Tidy.append_blank {front back : List Char} (h : Tidy front) (h' : Tidy back) :
    Tidy (front ++ ' ' :: back) := by
  have blank : Paired [' '] := .bare (by decide) .nil
  exact h.append (Neat.append blank h'.neat h'.nonempty) (List.cons_ne_nil ' ' back)

/-- Trimming takes blanks off a paired text and leaves a neat one that does not begin with a blank. -/
theorem exists_trimUnescaped {text : List Char} (h : Paired text) :
    ∃ front back, text = front ++ (trimUnescaped text ++ back) ∧
      (∀ c ∈ front, isBlank c = true) ∧ (∀ c ∈ back, isBlank c = true) ∧
      (∀ c ∈ (trimUnescaped text).head?, isBlank c = false) ∧ Neat (trimUnescaped text) := by
  obtain ⟨front, equal, inFront, starts⟩ := exists_trimStart text
  obtain ⟨back, divide, inBack, ends⟩ := exists_trimEnd (trimStart text)
  have paired : Paired (trimEnd (trimStart text) ++ back) := by
    rw [← divide]
    rw [equal] at h
    exact (paired_of_blank inFront).of_append h
  rw [trimUnescaped]
  rcases paired.cut with ⟨isCore, -⟩ | ⟨inner, c, later, half, rfl, isInner, -⟩
  · have even := isCore.even_trailingBackslashes
    refine ⟨front, back, ?_, inFront, inBack, ?_, ?_⟩
    all_goals simp only [even, if_true]
    · rw [← divide]
      exact equal
    · intro c member
      apply starts c
      rw [divide]
      cases core : trimEnd (trimStart text) with
      | nil => rw [core] at member; cases member
      | cons d core' => rw [core] at member; exact member
    · refine ⟨isCore, fun inner c same _ => ends c ?_⟩
      rw [same, List.getLast?_concat]
      rfl
  · have odd : ¬ trailingBackslashes (trimEnd (trimStart text)) % 2 = 0 := by
      have even := isInner.even_trailingBackslashes
      rw [half, trailingBackslashes_concat, if_pos rfl]
      omega
    have core : (trimStart text).take ((trimEnd (trimStart text)).length + 1) =
        inner ++ ['\\', c] := by
      rw [congrArg (List.take _) divide, List.take_length_add_append, half, List.append_assoc]
      rfl
    refine ⟨front, later, ?_, inFront, fun d member => inBack d (List.mem_cons_of_mem c member),
      ?_, ?_⟩
    all_goals simp only [odd, if_false, core]
    · rw [half] at divide
      rw [List.append_assoc, List.cons_append, List.singleton_append]
      rw [List.append_assoc, List.singleton_append] at divide
      rw [← divide]
      exact equal
    · intro d member
      apply starts d
      rw [divide, half]
      cases inner with
      | nil => exact member
      | cons e inner => exact member
    · exact neat_escaped isInner c

/-- Blanks behind a text make no difference, if the text does not end with half an escape. -/
theorem trimUnescaped_append_of_blank {text blanks : List Char} (neat : Neat text)
    (inBlanks : ∀ c ∈ blanks, isBlank c = true) :
    trimUnescaped (text ++ blanks) = trimUnescaped text := by
  obtain ⟨front, back, equal, inFront, inBack, starts, isNeat⟩ := exists_trimUnescaped neat.1
  have whole : text ++ blanks = front ++ (trimUnescaped text ++ (back ++ blanks)) := by
    rw [← List.append_assoc, ← List.append_assoc, List.append_assoc front, ← equal]
  rw [whole]
  exact trimUnescaped_of_neat inFront (List.forall_mem_append.2 ⟨inBack, inBlanks⟩) starts isNeat

end Phrasebook
