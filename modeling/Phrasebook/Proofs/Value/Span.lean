import Phrasebook.Proofs.Value.Locality

/-!
# The span of a value

The characters that `elementLength` counts are a text of their own, which holds the value and nothing else,
so that `read` decodes what was measured. Behind a value with an end of its own any text may follow without
changing it, and behind a bare value nothing or a line break: `elementLength_span`.
-/

namespace Phrasebook.Value

open Phrasebook.Text

/-- The first characters of a text. -/
def firstChars (text : String) (count : Nat) : String :=
  String.ofList (text.toList.take count)

/-- What a value takes from the front of a text, and what may follow it there. The character `c` is the
first one behind blanks and comments. -/
theorem exists_span_of_readElement {text : List Char} {value : Value} {rest : List Char}
    (h : readElement false text = .ok (value, rest)) :
    ∃ span c tail, span ≠ [] ∧ text = span ++ rest ∧ skipTrivia text = .ok (c :: tail) ∧
      readElement false span = .ok (value, []) ∧
      ∀ back, closesItself c = true ∨ Stops isLineBreak back →
        readElement false (span ++ back) = .ok (value, back) := by
  obtain ⟨trivia, c, body, isTrivia, opens, rfl, -, -, takes⟩ := takes_of_readElement h
  have alone := takes [] (.inr (stops_nil _))
  rw [List.append_nil] at alone
  refine ⟨trivia ++ c :: body, c, body ++ rest, by simp, rfl, ?_, alone, fun back follows => ?_⟩
  · rw [List.append_assoc, isTrivia.skipTrivia_append]
    exact skipTrivia_of_solid (solid_of_opensValue opens _)
  · refine takes back ?_
    rw [MayEnd, endsBare_false]
    exact follows

theorem elementLength_of_readElement {front back : List Char} {value : Value}
    (h : readElement false (front ++ back) = .ok (value, back)) :
    elementLength (String.ofList (front ++ back)) = .ok front.length := by
  rw [elementLength, String.toList_ofList, h]
  simp

theorem read_of_readElement {text : List Char} {value : Value}
    (h : readElement false text = .ok (value, [])) : read (String.ofList text) = .ok value := by
  rw [read, String.toList_ofList, readAll, h]
  rfl

/-- **Span.** The span of a value holds at least one character and no more than the text. It is as long by
itself, and is read as a value. Behind it may follow any text, if the character that begins the value has
one that ends it, and else nothing or a line break: then the span is as long, and holds the same value. -/
theorem elementLength_span {text : String} {n : Nat} (h : elementLength text = .ok n) :
    1 ≤ n ∧ n ≤ text.length ∧ elementLength (firstChars text n) = .ok n ∧
    ∃ value, read (firstChars text n) = .ok value ∧
      ∃ c tail, skipTrivia text.toList = .ok (c :: tail) ∧
        ∀ back : String, closesItself c = true ∨ Stops isLineBreak back.toList →
          elementLength (firstChars text n ++ back) = .ok n ∧
            readElement false (firstChars text n ++ back).toList = .ok (value, back.toList) := by
  rw [elementLength] at h
  cases measured : readElement false text.toList with
  | error fault => simp [measured] at h
  | ok result =>
    obtain ⟨value, rest⟩ := result
    simp only [measured, Except.ok.injEq] at h
    obtain ⟨span, c, tail, some, equal, skipped, alone, follows⟩ :=
      exists_span_of_readElement measured
    have length : n = span.length := by
      rw [← h, equal, List.length_append, Nat.add_sub_cancel]
    have taken : firstChars text n = String.ofList span := by
      rw [firstChars, equal, length, List.take_left]
    have bound : span.length ≤ text.length := by
      rw [← String.length_toList, equal, List.length_append]
      exact Nat.le_add_right _ _
    have measures : elementLength (String.ofList span) = .ok span.length := by
      have whole := @elementLength_of_readElement span [] value
      rw [List.append_nil] at whole
      exact whole alone
    rw [taken, length]
    refine ⟨List.length_pos_iff.2 some, bound, measures, value, read_of_readElement alone, c, tail,
      skipped, fun back mayFollow => ?_⟩
    have element := follows back.toList mayFollow
    have joined : String.ofList span ++ back = String.ofList (span ++ back.toList) := by
      rw [String.ofList_append, String.ofList_toList]
    rw [joined, String.toList_ofList]
    exact ⟨elementLength_of_readElement element, element⟩

/-- An object behind a comment, in front of a text that is no value. -/
theorem elementLength_span_object :
    elementLength "# x\n{a: [1]}]" = .ok 12 ∧
      ∃ value, read "# x\n{a: [1]}" = .ok value ∧
        readElement false "# x\n{a: [1]}'".toList = .ok (value, ['\'']) := by
  have measured : elementLength "# x\n{a: [1]}]" = .ok 12 := by
    simp [elementLength, readElement_eq, skipTrivia, skipLineComment, isLineBreak, isBlank,
      readMembers_eq, readName, readNameChars_cons, breaksName, readItems_eq, readBare, endsBare,
      trimEnd]
  obtain ⟨-, -, -, value, whole, c, tail, skipped, follows⟩ := elementLength_span measured
  have first : skipTrivia "# x\n{a: [1]}]".toList = .ok "{a: [1]}]".toList := by
    simp [skipTrivia, skipLineComment, isLineBreak, isBlank]
  rw [first] at skipped
  cases skipped
  exact ⟨measured, value, whole, (follows "'" (.inl rfl)).2⟩

end Phrasebook.Value
