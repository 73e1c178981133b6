/-!
# Blank characters

The characters that separate words (`isBlank`, the White_Space property) and those among them that
end a line (`isLineBreak`), with the trimming functions built on them. Text is handled as a list
of characters, so that a prefix, a suffix and a length mean what they say.

`isBlank_of_isLineBreak` is the fact that readers rely on: what ends a line also ends a word. A text is
divided into the blanks that trimming takes away and what it leaves by `exists_trimStart` and
`exists_trimEnd`.
-/

namespace Phrasebook.Text

/-- The White_Space property: the characters that may stand between two words. -/
def isBlank (c : Char) : Bool :=
  let n := c.toNat
  (9 ≤ n && n ≤ 13) || n == 32 || n == 0x85 || n == 0xA0 || n == 0x1680 ||
    (0x2000 ≤ n && n ≤ 0x200A) || n == 0x2028 || n == 0x2029 || n == 0x202F || n == 0x205F ||
    n == 0x3000

/-- The characters that end a line: line feed, carriage return and the two separators. -/
def isLineBreak (c : Char) : Bool :=
  c == '\n' || c == '\r' || c == '\u2028' || c == '\u2029'

/-- A character that ends a line is blank. -/
theorem isBlank_of_isLineBreak {c : Char} (h : isLineBreak c = true) : isBlank c = true := by
  simp only [isLineBreak, Bool.or_eq_true, beq_iff_eq] at h
  rcases h with ((rfl | rfl) | rfl) | rfl <;> decide

theorem notMem_of_isBlank {c : Char} {others : List Char} (h : isBlank c = true)
    (noBlank : ∀ d ∈ others, isBlank d = false) : c ∉ others := by
  intro member
  rw [noBlank c member] at h
  cases h

/-! ## Trimming -/

/-- Drops the blanks in front. -/
def trimStart (text : List Char) : List Char :=
  text.dropWhile isBlank

/-- Drops the blanks at the end. -/
def trimEnd (text : List Char) : List Char :=
  (text.reverse.dropWhile isBlank).reverse

/-- Drops the blanks on both sides. -/
def trim (text : List Char) : List Char :=
  trimEnd (trimStart text)

theorem length_trimStart_le (text : List Char) : (trimStart text).length ≤ text.length :=
  (List.dropWhile_sublist _).length_le

theorem length_trimEnd_le (text : List Char) : (trimEnd text).length ≤ text.length := by
  simpa [trimEnd] using (List.dropWhile_sublist (l := text.reverse) isBlank).length_le

/-! ## What trimming leaves -/

theorem trimStart_append {blanks text : List Char} (h : ∀ c ∈ blanks, isBlank c = true) :
    trimStart (blanks ++ text) = trimStart text :=
  List.dropWhile_append_of_pos h

theorem trimStart_of_head {text : List Char} (h : ∀ c ∈ text.head?, isBlank c = false) :
    trimStart text = text := by
  cases text with
  | nil => rfl
  | cons c text => exact List.dropWhile_cons_of_neg (by simp [h c rfl])

theorem trimEnd_append {text blanks : List Char} (h : ∀ c ∈ blanks, isBlank c = true) :
    trimEnd (text ++ blanks) = trimEnd text := by
  rw [trimEnd, List.reverse_append,
    List.dropWhile_append_of_pos fun c member => h c (List.mem_reverse.1 member), trimEnd]

theorem trimEnd_concat {text : List Char} {c : Char} (h : isBlank c = false) :
    trimEnd (text ++ [c]) = text ++ [c] := by
  rw [trimEnd, List.reverse_concat, List.dropWhile_cons_of_neg (by simp [h]), List.reverse_cons,
    List.reverse_reverse]

theorem trimEnd_of_getLast? {text : List Char} (h : ∀ c ∈ text.getLast?, isBlank c = false) :
    trimEnd text = text := by
  by_cases empty : text = []
  · rw [empty]
    rfl
  · rw [← List.dropLast_concat_getLast empty]
    exact trimEnd_concat (h _ (List.getLast?_eq_some_getLast empty))

/-- Blanks behind a text are trimmed away, and no more if it neither begins nor ends with one. -/
theorem trim_append {text blanks : List Char} (some : text ≠ [])
    (starts : ∀ c ∈ text.head?, isBlank c = false) (ends : ∀ c ∈ text.getLast?, isBlank c = false)
    (h : ∀ c ∈ blanks, isBlank c = true) : trim (text ++ blanks) = text := by
  have whole : ∀ c ∈ (text ++ blanks).head?, isBlank c = false := by
    cases text with
    | nil => exact absurd rfl some
    | cons c text => exact starts
  rw [trim, trimStart_of_head whole, trimEnd_append h, trimEnd_of_getLast? ends]

theorem exists_trimStart (text : List Char) :
    ∃ front, text = front ++ trimStart text ∧ (∀ c ∈ front, isBlank c = true) ∧
      ∀ c ∈ (trimStart text).head?, isBlank c = false := by
  refine ⟨text.takeWhile isBlank, List.takeWhile_append_dropWhile.symm,
    fun c member => List.all_eq_true.1 List.all_takeWhile c member, fun c member => ?_⟩
  have stops := List.head?_dropWhile_not isBlank text
  rw [trimStart] at member
  rw [Option.mem_def.1 member] at stops
  simpa using stops

theorem exists_trimEnd (text : List Char) :
    ∃ back, text = trimEnd text ++ back ∧ (∀ c ∈ back, isBlank c = true) ∧
      ∀ c ∈ (trimEnd text).getLast?, isBlank c = false := by
  obtain ⟨back, equal, blank, stops⟩ := exists_trimStart text.reverse
  refine ⟨back.reverse, ?_, fun c member => blank c (List.mem_reverse.1 member), fun c member => ?_⟩
  · rw [trimEnd, ← trimStart, ← List.reverse_append, ← equal, List.reverse_reverse]
  · rw [trimEnd, ← trimStart, List.getLast?_reverse] at member
    exact stops c member

/-- Trimming leaves nothing just of blanks. -/
theorem trim_eq_nil_iff {text : List Char} : trim text = [] ↔ ∀ c ∈ text, isBlank c = true := by
  constructor
  · intro h
    obtain ⟨front, equal, inFront, -⟩ := exists_trimStart text
    obtain ⟨back, divide, inBack, -⟩ := exists_trimEnd (trimStart text)
    rw [trim] at h
    rw [h, List.nil_append] at divide
    rw [equal, divide]
    exact List.forall_mem_append.2 ⟨inFront, inBack⟩
  · intro h
    rw [trim, ← List.append_nil text, trimStart_append h]
    rfl

end Phrasebook.Text
