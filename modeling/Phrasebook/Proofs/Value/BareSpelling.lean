import Phrasebook.Proofs.Value.Rules

/-!
# Values without quotes

Which values can be spelled without quotes, and how: `SpellsBare`. A reader takes such a spelling up to
the blanks behind it, where something must follow that ends a bare value (`SpellsBare.readElement_append`).
-/

namespace Phrasebook.Value

open Phrasebook.Text Phrasebook.Number

/-- Words that need no quotes: those that hold nothing that ends a bare value, begin like no other value
and are neither a literal nor like a number. -/
structure BareWord (text : List Char) : Prop where
  nonempty : text ≠ []
  inItem : ∀ c ∈ text, isLineBreak c = false ∧ c ≠ ',' ∧ c ≠ '}' ∧ c ≠ ']'
  begins : ∀ c ∈ text.head?, isBlank c = false ∧ c ∉ ['"', '\'', '{', '[', '/', '#', ':']
  ends : ∀ c ∈ text.getLast?, isBlank c = false
  noLiteral : text ≠ "true".toList ∧ text ≠ "false".toList ∧ text ≠ "null".toList
  noNumber : ∀ c ∈ (text.dropWhile fun c => c = '-' || c = '+').head?, c.isDigit = false ∧ c ≠ '.'

/-- Spellings without quotes: the literals, integers of 64 bits, and words. -/
inductive SpellsBare : List Char → Value → Prop
  | yes : SpellsBare "true".toList (.bool true)
  | no : SpellsBare "false".toList (.bool false)
  | null : SpellsBare "null".toList .null
  | int {n : Int} : isSmallInteger n = true → SpellsBare (decimalInt n) (.int n)
  | word {text : List Char} : BareWord text → SpellsBare text (.string (String.ofList text))

/-- What the reader has to know of a spelling without quotes. -/
structure ReadsBare (written : List Char) (value : Value) : Prop where
  begins : ∃ c tail, written = c :: tail ∧ opensValue c = true ∧ closesItself c = false
  inItem : ∀ c ∈ written, endsBare true c = false
  ends : ∀ c ∈ written.getLast?, isBlank c = false
  value_eq : bareValue written = value

/-! ## Numbers and strings -/

/-- The signs that may be in front of a number. -/
def isSign (c : Char) : Bool :=
  c = '-' || c = '+'

theorem looksNumeric_eq_false_iff {text : List Char} :
    looksNumeric text = false ↔
      ∀ c ∈ (text.dropWhile isSign).head?, c.isDigit = false ∧ c ≠ '.' := by
  have same : isSign = fun c => decide (c = '-') || decide (c = '+') := rfl
  rw [looksNumeric, ← same]
  cases text.dropWhile isSign with
  | nil => simp
  | cons c rest => simp

/-- What looks like a number is no literal. -/
theorem bareValue_of_looksNumeric {text : List Char} (h : looksNumeric text = true) :
    bareValue text = (bareNumber? text).getD (.string (String.ofList text)) := by
  have noLiteral : ∀ word, looksNumeric word = false → text ≠ word := by
    rintro word never rfl
    rw [h] at never
    cases never
  rw [bareValue, if_neg (noLiteral _ (by decide)), if_neg (noLiteral _ (by decide)),
    if_neg (noLiteral _ (by decide))]

theorem bareValue_eq_int {text : List Char} (numeric : looksNumeric text = true) {n : Int}
    (reads : readInteger? text = some n) (small : isSmallInteger n = true) :
    bareValue text = .int n := by
  rw [bareValue_of_looksNumeric numeric, bareNumber?, if_pos numeric, reads, Option.filter_some,
    if_pos small]
  rfl

/-- An integer that is not small is read as a double, or as a string if it is too great for doubles. -/
theorem bareValue_of_not_small {text : List Char} (numeric : looksNumeric text = true) {n : Int}
    (reads : readInteger? text = some n) (great : isSmallInteger n = false) :
    (∃ x, bareValue text = .float x) ∨ bareValue text = .string (String.ofList text) := by
  rw [bareValue_of_looksNumeric numeric, bareNumber?, if_pos numeric, reads, Option.filter_some,
    if_neg (by simp [great])]
  cases (Decimal.read? text).bind Decimal.nearest? with
  | some x => exact .inl ⟨x, rfl⟩
  | none => exact .inr rfl

/-- What is neither a literal nor like a number is a string. -/
theorem bareValue_eq_string {text : List Char}
    (noLiteral : text ∉ ["true".toList, "false".toList, "null".toList])
    (noNumber : looksNumeric text = false) : bareValue text = .string (String.ofList text) := by
  simp only [List.mem_cons, List.not_mem_nil, or_false, not_or] at noLiteral
  obtain ⟨noTrue, noFalse, noNull⟩ := noLiteral
  rw [bareValue, if_neg noTrue, if_neg noFalse, if_neg noNull, bareNumber?,
    if_neg (by simp [noNumber])]
  rfl

/-! ## Integers -/

theorem isDigit_bounds {c : Char} (h : c.isDigit = true) : 48 ≤ c.toNat ∧ c.toNat ≤ 57 := by
  simpa [Char.isDigit, Char.le_def, UInt32.le_iff_toNat_le] using h

/-- The characters of an integer. -/
theorem mem_decimalInt {n : Int} {c : Char} (h : c ∈ decimalInt n) : c = '-' ∨ c.isDigit = true := by
  cases n with
  | ofNat n => exact .inr (List.all_eq_true.1 (all_isDigit_decimal n) c h)
  | negSucc n =>
    rcases List.mem_cons.1 h with rfl | later
    · exact .inl rfl
    · exact .inr (List.all_eq_true.1 (all_isDigit_decimal (n + 1)) c later)

/-- A digit begins a bare value and ends none. -/
theorem spec_of_isDigit {c : Char} (h : c.isDigit = true) :
    opensValue c = true ∧ closesItself c = false ∧ endsBare true c = false ∧ isBlank c = false := by
  have all : ∀ n < 58, 48 ≤ n → opensValue (Char.ofNat n) = true ∧
      closesItself (Char.ofNat n) = false ∧ endsBare true (Char.ofNat n) = false ∧
      isBlank (Char.ofNat n) = false := by decide
  obtain ⟨lower, upper⟩ := isDigit_bounds h
  have own := all c.toNat (Nat.lt_succ_of_le upper) lower
  rwa [Char.ofNat_toNat] at own

/-- So does a minus. -/
theorem spec_of_numeric {c : Char} (h : c = '-' ∨ c.isDigit = true) :
    opensValue c = true ∧ closesItself c = false ∧ endsBare true c = false ∧ isBlank c = false := by
  rcases h with rfl | digit
  · decide
  · exact spec_of_isDigit digit

theorem exists_decimal_cons (n : Nat) : ∃ c tail, decimal n = c :: tail ∧ c.isDigit = true := by
  obtain ⟨c, tail, equal⟩ := List.exists_cons_of_ne_nil (decimal_ne_nil n)
  have digits := List.all_eq_true.1 (all_isDigit_decimal n)
  rw [equal] at digits
  exact ⟨c, tail, equal, digits c List.mem_cons_self⟩

theorem looksNumeric_of_isDigit {c : Char} (h : c.isDigit = true) (tail : List Char) :
    looksNumeric (c :: tail) = true := by
  have noSign : ¬ (c = '-' ∨ c = '+') := by
    rintro (rfl | rfl) <;> cases h
  rw [looksNumeric, List.dropWhile_cons_of_neg (by simpa using noSign)]
  simp [h]

theorem looksNumeric_minus (text : List Char) : looksNumeric ('-' :: text) = looksNumeric text := by
  rw [looksNumeric, List.dropWhile_cons_of_pos (by decide), looksNumeric]

theorem looksNumeric_decimalInt (n : Int) : looksNumeric (decimalInt n) = true := by
  have behind : ∀ n : Nat, looksNumeric (decimal n) = true := by
    intro n
    obtain ⟨c, tail, equal, digit⟩ := exists_decimal_cons n
    rw [equal]
    exact looksNumeric_of_isDigit digit tail
  cases n with
  | ofNat n => exact behind n
  | negSucc n => exact (looksNumeric_minus _).trans (behind (n + 1))

theorem bareValue_decimalInt {n : Int} (small : isSmallInteger n = true) :
    bareValue (decimalInt n) = .int n :=
  bareValue_eq_int (looksNumeric_decimalInt n) (readInteger?_decimalInt n) small

/-! ## All spellings -/

theorem BareWord.readsBare {text : List Char} (h : BareWord text) :
    ReadsBare text (.string (String.ofList text)) := by
  obtain ⟨some, inItem, begins, ends, noLiteral, noNumber⟩ := h
  obtain ⟨c, tail, rfl⟩ := List.exists_cons_of_ne_nil some
  obtain ⟨stays, others⟩ := begins c rfl
  obtain ⟨-, noComma, noBrace, noBracket⟩ := inItem c List.mem_cons_self
  simp only [List.mem_cons, List.not_mem_nil, or_false, not_or] at others
  refine ⟨⟨c, tail, rfl, ?_, ?_⟩, fun d member => ?_, ends, ?_⟩
  · simp [opensValue, stays, others, noComma, noBrace, noBracket]
  · simp [closesItself, others]
  · simp [endsBare, inItem d member]
  · refine bareValue_eq_string ?_ (looksNumeric_eq_false_iff.2 noNumber)
    simp only [List.mem_cons, List.not_mem_nil, or_false, not_or]
    exact noLiteral

theorem SpellsBare.readsBare {written : List Char} {value : Value} (h : SpellsBare written value) :
    ReadsBare written value := by
  cases h with
  | yes =>
    refine ⟨⟨'t', _, rfl, by decide, by decide⟩, ?_, by simp [isBlank], rfl⟩
    simp [endsBare, isLineBreak]
  | no =>
    refine ⟨⟨'f', _, rfl, by decide, by decide⟩, ?_, by simp [isBlank], rfl⟩
    simp [endsBare, isLineBreak]
  | null =>
    refine ⟨⟨'n', _, rfl, by decide, by decide⟩, ?_, by simp [isBlank], rfl⟩
    simp [endsBare, isLineBreak]
  | @int n small =>
    refine ⟨?_, fun c member => (spec_of_numeric (mem_decimalInt member)).2.2.1,
      fun c member => (spec_of_numeric (mem_decimalInt (List.mem_of_getLast? member))).2.2.2,
      bareValue_decimalInt small⟩
    cases equal : decimalInt n with
    | nil =>
      have numeric := looksNumeric_decimalInt n
      rw [equal] at numeric
      cases numeric
    | cons c tail =>
      have isNumeric := @mem_decimalInt n c (by rw [equal]; exact List.mem_cons_self)
      have own := spec_of_numeric isNumeric
      exact ⟨c, tail, rfl, own.1, own.2.1⟩
  | word isWord => exact isWord.readsBare

/-- **Values without quotes.** A spelling without quotes is read up to the blanks behind it, where a
character must follow that ends a bare value, or nothing. -/
theorem SpellsBare.readElement_append {written : List Char} {value : Value}
    (h : SpellsBare written value) {inside : Bool} {blanks rest : List Char}
    (inLine : ∀ c ∈ blanks, isBlank c = true ∧ endsBare inside c = false)
    (stops : Stops (endsBare inside) rest) :
    readElement inside (written ++ (blanks ++ rest)) = .ok (value, rest) := by
  obtain ⟨⟨c, tail, rfl, opens, bare⟩, inItem, ends, value_eq⟩ := h.readsBare
  have inBare : ∀ d ∈ c :: (tail ++ blanks), endsBare inside d = false := by
    rw [← List.cons_append]
    refine List.forall_mem_append.2 ⟨fun d member => ?_, fun d member => (inLine d member).2⟩
    have item := inItem d member
    cases inside with
    | true => exact item
    | false =>
      rw [endsBare, Bool.or_eq_false_iff] at item
      rw [endsBare_false]
      exact item.1
  have begins : ∀ d ∈ (c :: tail).head?, isBlank d = false := by
    rintro d ⟨⟩
    exact (solid_of_opensValue opens tail).isBlank_eq_false
  have trimmed := trim_append (List.cons_ne_nil c tail) begins ends fun d member => (inLine d member).1
  have read := readElement_bare opens bare inBare stops
  rw [List.cons_append] at trimmed
  rwa [trimmed, value_eq, List.append_assoc, ← List.cons_append] at read

end Phrasebook.Value
