import Phrasebook.Proofs.Grammar.Marks

/-!
# The bracket that closes

`closeBracket?` keeps a level. What it looks for can be said without one: contents are `Balanced` if no escape
is cut off, as many bare brackets of the kind are opened as closed, and nowhere more are closed
(`Matching.encloses_iff`). `ClosesAt` says that the bracket at a place closes balanced contents. There is one
such place at most, and `closeBracket?` finds it if there is one: `Matching.closeBracket?_eq_some_iff`.
-/

namespace Phrasebook

open Phrasebook.Text

/-! ## Balanced contents -/

/-- The characters of a text that no backslash escapes. -/
def bareChars : List Char → List Char
  | [] => []
  | [c] => [c]
  | c :: d :: text => if c = '\\' then bareChars text else c :: bareChars (d :: text)

/-- How often a character stands in a text without being escaped. -/
def bareCount (c : Char) (text : List Char) : Nat :=
  (bareChars text).count c

theorem bareChars_bare {c : Char} (plain : c ≠ '\\') (text : List Char) :
    bareChars (c :: text) = c :: bareChars text := by
  cases text with
  | nil => rfl
  | cons d text => rw [bareChars, if_neg plain]

theorem bareChars_escaped (c : Char) (text : List Char) :
    bareChars ('\\' :: c :: text) = bareChars text := by
  rw [bareChars, if_pos rfl]

theorem bareCount_bare {c : Char} (plain : c ≠ '\\') (d : Char) (text : List Char) :
    bareCount d (c :: text) = bareCount d text + if c = d then 1 else 0 := by
  simp [bareCount, bareChars_bare plain, List.count_cons]

theorem bareCount_escaped (c d : Char) (text : List Char) :
    bareCount d ('\\' :: c :: text) = bareCount d text := by
  rw [bareCount, bareChars_escaped, bareCount]

/-- The contents of a bracket: no escape is cut off at the end, as many bare brackets of the kind are opened as
are closed, and in no beginning of the contents more are closed. -/
structure Balanced (opening closing : Char) (contents : List Char) : Prop where
  paired : Paired contents
  count_eq : bareCount opening contents = bareCount closing contents
  count_le : ∀ front, front <+: contents → bareCount closing front ≤ bareCount opening front

theorem bareCount_nil (c : Char) : bareCount c [] = 0 :=
  rfl

theorem forall_prefix_cons_iff {P : List Char → Prop} {c : Char} {text : List Char} :
    (∀ front, front <+: c :: text → P front) ↔ P [] ∧ ∀ front, front <+: text → P (c :: front) := by
  constructor
  · intro all
    exact ⟨all [] List.nil_prefix, fun front inText =>
      all (c :: front) (List.cons_prefix_cons.2 ⟨rfl, inText⟩)⟩
  · intro all front inText
    rcases List.prefix_cons_iff.1 inText with rfl | ⟨inner, rfl, inRest⟩
    · exact all.1
    · exact all.2 inner inRest

/-- The level behind a text counts the brackets of a kind, if none closes where the level is zero. -/
theorem Matching.level?_eq_some_iff {opening closing : Char} (h : Matching opening closing)
    {text : List Char} (paired : Paired text) {depth behind : Nat} :
    level? opening closing depth (marks text) = some behind ↔
      depth + bareCount opening text = behind + bareCount closing text ∧
        ∀ front, front <+: text → bareCount closing front ≤ depth + bareCount opening front := by
  have distinct : opening ≠ closing := by cases h <;> decide
  induction paired generalizing depth with
  | nil => simp [marks, level?, bareCount_nil]
  | @bare c text plain _ ih =>
    rw [marks_bare plain, h.level?_bare, forall_prefix_cons_iff]
    simp only [bareCount_bare plain, bareCount_nil, Nat.zero_le, true_and]
    by_cases stops : c = closing ∧ depth = 0
    · -- The text up to this bracket closes one bracket more than it opens.
      obtain ⟨rfl, rfl⟩ := stops
      refine iff_of_false (by simp) fun counts => ?_
      have first := counts.2 [] List.nil_prefix
      simp [bareCount_nil, distinct.symm] at first
    · rw [if_neg stops]
      generalize equal :
        (if c = opening then depth + 1 else if c = closing then depth - 1 else depth) = depth'
      have step : depth' + (if c = closing then 1 else 0) = depth + if c = opening then 1 else 0 := by
        grind
      refine ih.trans (and_congr (by omega) ?_)
      refine forall_congr' fun front => forall_congr' fun _ => ?_
      omega
  | @escaped c text _ ih =>
    have half : bareCount closing ['\\'] = 0 := by
      rw [bareCount, bareChars, List.count_singleton, if_neg]
      simpa using h.plain.2.symm
    rw [marks_escaped, level?_escaped, bareCount_escaped, bareCount_escaped]
    refine ih.trans (and_congr_right fun _ => ?_)
    rw [forall_prefix_cons_iff, forall_prefix_cons_iff, half]
    simp only [bareCount_escaped, bareCount_nil, Nat.zero_le, true_and]

/-- What encloses is what is balanced. -/
theorem Matching.encloses_iff {opening closing : Char} (h : Matching opening closing)
    {contents : List Char} : Encloses opening closing contents ↔ Balanced opening closing contents := by
  constructor
  · rintro ⟨paired, level⟩
    obtain ⟨count, below⟩ := (h.level?_eq_some_iff paired).1 level
    simp only [Nat.zero_add] at count below
    exact ⟨paired, count, below⟩
  · intro balanced
    refine ⟨balanced.paired, (h.level?_eq_some_iff balanced.paired).2 ?_⟩
    simp only [Nat.zero_add]
    exact ⟨balanced.count_eq, balanced.count_le⟩

/-! ## The place of the bracket -/

/-- The bracket at `stop` closes the contents that begin at `start`. -/
structure ClosesAt (opening closing : Char) (text : List Char) (start stop : Nat) : Prop where
  start_le : start ≤ stop
  bracket : text[stop]? = some closing
  balanced : Balanced opening closing (text.extract start stop)

theorem drop_eq_extract_append {text : List Char} {start stop : Nat} {c : Char} (le : start ≤ stop)
    (stands : text[stop]? = some c) :
    text.drop start = text.extract start stop ++ c :: text.drop (stop + 1) := by
  obtain ⟨inside, rfl⟩ := List.getElem?_eq_some_iff.1 stands
  calc text.drop start
      = (text.drop start).take (stop - start) ++ (text.drop start).drop (stop - start) :=
        (List.take_append_drop _ _).symm
    _ = text.extract start stop ++ text[stop] :: text.drop (stop + 1) := by
        rw [List.drop_drop, Nat.add_sub_cancel' le, List.drop_eq_getElem_cons inside,
          List.extract_eq_take_drop]

/-- The search finds the place where the contents are closed, and there is one if it finds any. -/
theorem Matching.closeBracket?_eq_some_iff {opening closing : Char} (h : Matching opening closing)
    {text : List Char} {start : Nat} {contents rest : List Char} :
    closeBracket? opening closing 0 (text.drop start) = some (contents, rest) ↔
      ∃ stop, ClosesAt opening closing text start stop ∧ contents = text.extract start stop ∧
        rest = text.drop (stop + 1) := by
  constructor
  · intro found
    obtain ⟨equal, encloses⟩ := of_closeBracket? h found
    have inside : text.extract start (start + contents.length) = contents := by
      rw [List.extract_eq_take_drop, Nat.add_sub_cancel_left, equal, List.take_left]
    refine ⟨start + contents.length, ⟨Nat.le_add_right _ _, ?_, ?_⟩, inside.symm, ?_⟩
    · rw [← List.getElem?_drop, equal, List.getElem?_append_right (Nat.le_refl _), Nat.sub_self]
      rfl
    · rw [inside]
      exact h.encloses_iff.1 encloses
    · rw [Nat.add_assoc, ← List.drop_drop, equal, List.drop_length_add_append]
      rfl
  · rintro ⟨stop, closes, rfl, rfl⟩
    rw [drop_eq_extract_append closes.start_le closes.bracket]
    obtain ⟨paired, level⟩ := h.encloses_iff.2 closes.balanced
    exact closeBracket?_append h paired level _

/-- Contents that begin at a place are closed at one place at most. -/
theorem ClosesAt.unique {opening closing : Char} (h : Matching opening closing) {text : List Char}
    {start stop stop' : Nat} (closes : ClosesAt opening closing text start stop)
    (closes' : ClosesAt opening closing text start stop') : stop = stop' := by
  have found := h.closeBracket?_eq_some_iff.2 ⟨stop, closes, rfl, rfl⟩
  rw [h.closeBracket?_eq_some_iff.2 ⟨stop', closes', rfl, rfl⟩, Option.some.injEq,
    Prod.mk.injEq] at found
  have length := congrArg List.length found.2
  have inside := (List.getElem?_eq_some_iff.1 closes.bracket).1
  have inside' := (List.getElem?_eq_some_iff.1 closes'.bracket).1
  rw [List.length_drop, List.length_drop] at length
  omega

end Phrasebook
