import Mathlib.Data.Nat.Digits.Defs
import Phrasebook.Call.Argument
import Phrasebook.Proofs.Value.BareSpelling

/-!
# Integers as arguments

An integer in decimal, of any number of digits, is read as a whole number if 64 bits with a sign can
hold it, and else as a double, or as a string if no double comes near it. Nothing but a whole number
is taken for one, so that no integer type ever gets another number than the one that is written: the
number is exact, or it is refused (`ExactOrRefused`).

The types of up to 64 bits with a sign refuse what is not in their range and nothing else. The type
of 64 bits without a sign also refuses the upper half of its range, which is read as doubles:
`decodeAs_numeral`.
-/

namespace Phrasebook

open Phrasebook.Text Phrasebook.Value Phrasebook.Number

/-! ## Numerals -/

/-- Integers in decimal. The digits are given from the last one to the first, of which there is at
least one, and there may be zeros in front. -/
inductive Numeral : List Char → Int → Prop
  | plain {digits : List Nat} : digits ≠ [] → (∀ d ∈ digits, d < 10) →
    Numeral (digits.reverse.map Nat.digitChar) (Nat.ofDigits 10 digits : Nat)
  | minus {digits : List Nat} : digits ≠ [] → (∀ d ∈ digits, d < 10) →
    Numeral ('-' :: digits.reverse.map Nat.digitChar) (-(Nat.ofDigits 10 digits : Nat))

theorem isDigit_digitChar {d : Nat} (h : d < 10) :
    (Nat.digitChar d).isDigit = true ∧ digitValue (Nat.digitChar d) = d := by
  have all : ∀ d < 10, (Nat.digitChar d).isDigit = true ∧ digitValue (Nat.digitChar d) = d := by
    decide
  exact all d h

/-- The digits are read as the number that they write. -/
theorem ofDigits_map_digitChar {digits : List Nat} (h : ∀ d ∈ digits, d < 10) :
    ofDigits (digits.reverse.map Nat.digitChar) = Nat.ofDigits 10 digits := by
  induction digits with
  | nil => rfl
  | cons d digits ih =>
    obtain ⟨last, others⟩ := List.forall_mem_cons.1 h
    rw [List.reverse_cons, List.map_append, List.map_singleton, ofDigits_append_singleton,
      ih others, (isDigit_digitChar last).2, Nat.ofDigits_cons]
    omega

/-- At least one digit, and nothing else, is read as a number. -/
theorem exists_digit_cons {digits : List Nat} (holds : digits ≠ []) (small : ∀ d ∈ digits, d < 10) :
    ∃ c tail, digits.reverse.map Nat.digitChar = c :: tail ∧
      (∀ e ∈ c :: tail, e.isDigit = true) ∧
      readDigits? (c :: tail) = some (Nat.ofDigits 10 digits) := by
  have isDigits : ∀ c ∈ digits.reverse.map Nat.digitChar, c.isDigit = true := by
    intro c member
    obtain ⟨d, isDigit, rfl⟩ := List.mem_map.1 member
    exact (isDigit_digitChar (small d (List.mem_reverse.1 isDigit))).1
  have value := ofDigits_map_digitChar small
  obtain ⟨c, tail, spelled⟩ : ∃ c tail, digits.reverse.map Nat.digitChar = c :: tail :=
    List.exists_cons_of_ne_nil (by simpa using holds)
  rw [spelled] at isDigits value
  refine ⟨c, tail, spelled, isDigits, ?_⟩
  rw [readDigits?, List.all_eq_true.2 isDigits, value]
  rfl

/-- What is read of a numeral: it looks like a number, is read as the integer, and consists of a
minus and digits. -/
structure ReadsInteger (text : List Char) (n : Int) : Prop where
  numeric : looksNumeric text = true
  reads : readInteger? text = some n
  chars : ∀ c ∈ text, c = '-' ∨ c.isDigit = true

theorem Numeral.readsInteger {text : List Char} {n : Int} (h : Numeral text n) :
    ReadsInteger text n := by
  cases h with
  | plain holds small =>
    obtain ⟨c, tail, spelled, digits, reads⟩ := exists_digit_cons holds small
    have first := digits c List.mem_cons_self
    rw [spelled]
    refine ⟨looksNumeric_of_isDigit first tail, ?_, fun d member => .inr (digits d member)⟩
    rw [readInteger?_eq_of_isDigit first, reads]
    rfl
  | minus holds small =>
    obtain ⟨c, tail, spelled, digits, reads⟩ := exists_digit_cons holds small
    have first := digits c List.mem_cons_self
    rw [spelled]
    refine ⟨(looksNumeric_minus _).trans (looksNumeric_of_isDigit first tail), ?_,
      List.forall_mem_cons.2 ⟨.inl rfl, fun d member => .inr (digits d member)⟩⟩
    rw [readInteger?, reads]
    rfl

/-- A numeral is decoded as the bare value that it is. -/
theorem ReadsInteger.decode_eq {text : String} {n : Int} (h : ReadsInteger text.toList n) :
    decode text = .ok (bareValue text.toList) := by
  have spec := fun c member => spec_of_numeric (h.chars c member)
  rw [decode_eq_ok_iff]
  cases spelled : text.toList with
  | nil =>
    have numeric := h.numeric
    rw [spelled] at numeric
    cases numeric
  | cons c tail =>
    rw [spelled] at spec
    obtain ⟨opens, bare, -⟩ := spec c List.mem_cons_self
    have inLine : ∀ d ∈ c :: tail, isLineBreak d = false := by
      intro d member
      have stays := (spec d member).2.2.1
      simp only [endsBare, Bool.or_eq_false_iff] at stays
      exact stays.1
    have trimmed : trim (c :: tail) = c :: tail := by
      rw [trim, trimStart_of_head, trimEnd_of_getLast?]
      · intro d last
        exact (spec d (List.mem_of_getLast? last)).2.2.2
      · rintro d ⟨⟩
        exact (spec c List.mem_cons_self).2.2.2
    rw [readAll_bare opens bare inLine, trimmed]

/-! ## Integer types -/

/-- Integers that are taken from the whole numbers from `low` to below `high`. -/
structure IntegerType (α : Type) [FromValue α] (low high : Int) where
  toInt : α → Int
  ofInt : Int → α
  range : String
  fromValue_eq : ∀ value : Value, fromValue value = (asInt low high range value).map ofInt
  toInt_ofInt : ∀ n, low ≤ n → n < high → toInt (ofInt n) = n

/-- To read a text as one of the integers `α` gives the integer `n` if it is in range, and else
fails because of the shape. -/
structure ExactOrRefused (α : Type) [FromValue α] (toInt : α → Int) (inRange : Prop) (text : String)
    (n : Int) : Prop where
  exact : inRange → ∃ x : α, decodeAs text = .ok x ∧ toInt x = n
  refused : ¬ inRange →
    ∃ mismatch, (decodeAs text : Except DecodeFault α) = .error (.unexpectedShape text mismatch)

theorem isSmallInteger_iff {n : Int} :
    isSmallInteger n = true ↔ -2 ^ 63 ≤ n ∧ n < 2 ^ 63 := by
  unfold isSmallInteger
  rw [Bool.and_eq_true, decide_eq_true_eq, decide_eq_true_eq]
  omega

section

variable {α : Type} [FromValue α] {low high n : Int} {text : String}

/-- An integer that is read as a whole number is taken if it is in the range of the type. -/
theorem IntegerType.decodeAs_of_small (type : IntegerType α low high)
    (reads : ReadsInteger text.toList n) (small : isSmallInteger n = true) :
    decodeAs text =
      if low ≤ n ∧ n < high then .ok (type.ofInt n)
      else .error (.unexpectedShape text (.wrongValue (.int n) type.range)) := by
  rw [decodeAs, reads.decode_eq, bareValue_eq_int reads.numeric reads.reads small]
  simp only [type.fromValue_eq, asInt]
  split <;> rfl

/-- A double and a string are taken for no integer. -/
theorem IntegerType.decodeAs_of_not_small (type : IntegerType α low high)
    (reads : ReadsInteger text.toList n) (great : isSmallInteger n = false) :
    (decodeAs text : Except DecodeFault α) =
      .error (.unexpectedShape text (.wrongType (bareValue text.toList) type.range)) := by
  rw [decodeAs, reads.decode_eq]
  simp only [type.fromValue_eq]
  rcases bareValue_of_not_small reads.numeric reads.reads great with ⟨x, value⟩ | value
  · rw [value]
    rfl
  · rw [value]
    rfl

/-- The integers in the range of the type are read that are read as whole numbers. -/
theorem IntegerType.exactOrRefused (type : IntegerType α low high) {inRange : Prop}
    (reads : ReadsInteger text.toList n)
    (whole : inRange ↔ (low ≤ n ∧ n < high) ∧ -2 ^ 63 ≤ n ∧ n < 2 ^ 63) :
    ExactOrRefused α type.toInt inRange text n := by
  rw [← isSmallInteger_iff] at whole
  cases small : isSmallInteger n with
  | true =>
    rw [small, and_iff_left rfl] at whole
    have decoded := type.decodeAs_of_small reads small
    refine ⟨fun inside => ⟨type.ofInt n, ?_, ?_⟩, fun outside => ?_⟩
    · rw [decoded, if_pos (whole.1 inside)]
    · exact type.toInt_ofInt n (whole.1 inside).1 (whole.1 inside).2
    · rw [decoded, if_neg (mt whole.2 outside)]
      exact ⟨_, rfl⟩
  | false =>
    rw [small] at whole
    refine ⟨fun inside => ?_, fun _ => ⟨_, type.decodeAs_of_not_small reads small⟩⟩
    cases (whole.1 inside).2

/-- What is read exactly is not refused, so that there is one range only. -/
theorem ExactOrRefused.iff_of {toInt : α → Int} {inRange inRange' : Prop}
    (h : ExactOrRefused α toInt inRange text n) (h' : ExactOrRefused α toInt inRange' text n) :
    inRange ↔ inRange' := by
  by_cases inside : inRange <;> by_cases inside' : inRange'
  · exact iff_of_true inside inside'
  · obtain ⟨x, reads, -⟩ := h.exact inside
    obtain ⟨mismatch, refuses⟩ := h'.refused inside'
    rw [reads] at refuses
    cases refuses
  · obtain ⟨x, reads, -⟩ := h'.exact inside'
    obtain ⟨mismatch, refuses⟩ := h.refused inside
    rw [reads] at refuses
    cases refuses
  · exact iff_of_false inside inside'

end

namespace IntegerType

/-- Bytes. -/
def uInt8 : IntegerType UInt8 0 (2 ^ 8) where
  toInt x := x.toNat
  ofInt n := UInt8.ofNat n.toNat
  range := "u8"
  fromValue_eq _ := rfl
  toInt_ofInt n low high := by
    have fits : n.toNat < 2 ^ 8 := by omega
    rw [UInt8.toNat_ofNat_of_lt' fits]
    omega

/-- Integers of 64 bits without a sign. -/
def uInt64 : IntegerType UInt64 0 (2 ^ 64) where
  toInt x := x.toNat
  ofInt n := UInt64.ofNat n.toNat
  range := "u64"
  fromValue_eq _ := rfl
  toInt_ofInt n low high := by
    have fits : n.toNat < 2 ^ 64 := by omega
    rw [UInt64.toNat_ofNat_of_lt' fits]
    omega

/-- Integers of 32 bits. -/
def int32 : IntegerType Int32 (-2 ^ 31) (2 ^ 31) where
  toInt := Int32.toInt
  ofInt := Int32.ofInt
  range := "i32"
  fromValue_eq _ := rfl
  toInt_ofInt n low high := Int32.toInt_ofInt_of_le (by omega) (by omega)

/-- Integers of 64 bits. -/
def int64 : IntegerType Int64 (-2 ^ 63) (2 ^ 63) where
  toInt := Int64.toInt
  ofInt := Int64.ofInt
  range := "i64"
  fromValue_eq _ := rfl
  toInt_ofInt n low high := Int64.toInt_ofInt_of_le (by omega) (by omega)

end IntegerType

/-! ## Exact arguments -/

/-- The type of 64 bits without a sign reads the lower half of its range. -/
theorem exactOrRefused_uInt64 {text : String} {n : Int} (reads : ReadsInteger text.toList n) :
    ExactOrRefused UInt64 (fun x => x.toNat) (0 ≤ n ∧ n < 2 ^ 63) text n := by
  apply IntegerType.uInt64.exactOrRefused reads
  omega

/-- **Integers.** An integer in decimal is read exactly as one of 8 bits without a sign, of 32 bits
and of 64 bits if it is in their range, and refused otherwise. As one of 64 bits without a sign it
is read exactly in the lower half of the range and refused otherwise; the upper half is where a
number in range is not read. -/
theorem decodeAs_numeral {text : String} {n : Int} (h : Numeral text.toList n) :
    ExactOrRefused UInt8 (fun x => x.toNat) (0 ≤ n ∧ n < 2 ^ 8) text n ∧
    ExactOrRefused Int32 Int32.toInt (-2 ^ 31 ≤ n ∧ n < 2 ^ 31) text n ∧
    ExactOrRefused Int64 Int64.toInt (-2 ^ 63 ≤ n ∧ n < 2 ^ 63) text n ∧
    ExactOrRefused UInt64 (fun x => x.toNat) (0 ≤ n ∧ n < 2 ^ 63) text n ∧
    (ExactOrRefused UInt64 (fun x => x.toNat) (0 ≤ n ∧ n < 2 ^ 64) text n ↔
      ¬ (2 ^ 63 ≤ n ∧ n < 2 ^ 64)) := by
  have reads := h.readsInteger
  refine ⟨?_, ?_, ?_, exactOrRefused_uInt64 reads, fun whole => ?_, fun below => ?_⟩
  · apply IntegerType.uInt8.exactOrRefused reads
    omega
  · apply IntegerType.int32.exactOrRefused reads
    omega
  · apply IntegerType.int64.exactOrRefused reads
    omega
  · have same := (exactOrRefused_uInt64 reads).iff_of whole
    omega
  · apply IntegerType.uInt64.exactOrRefused reads
    omega

/-- With zeros in front, a negative integer is refused by the types without a sign only. -/
theorem decodeAs_numeral_minus :
    Numeral "-0128".toList (-128) ∧
      (∃ mismatch, (decodeAs "-0128" : Except DecodeFault UInt8) =
        .error (.unexpectedShape "-0128" mismatch)) ∧
      (∃ x : Int32, decodeAs "-0128" = .ok x ∧ x.toInt = -128) ∧
      (∃ x : Int64, decodeAs "-0128" = .ok x ∧ x.toInt = -128) ∧
      ∃ mismatch, (decodeAs "-0128" : Except DecodeFault UInt64) =
        .error (.unexpectedShape "-0128" mismatch) := by
  have numeral : Numeral "-0128".toList (-128) :=
    @Numeral.minus [8, 2, 1, 0] (by decide) (by decide)
  obtain ⟨byte, word, long, unsigned, -⟩ := decodeAs_numeral numeral
  exact ⟨numeral, byte.refused (by decide), word.exact (by decide), long.exact (by decide),
    unsigned.refused (by decide)⟩

/-- The first integer that 64 bits without a sign can hold, and with one cannot, is refused. -/
theorem decodeAs_numeral_upper :
    Numeral "9223372036854775808".toList (2 ^ 63) ∧
      ¬ ExactOrRefused UInt64 (fun x => x.toNat) ((0 : Int) ≤ 2 ^ 63 ∧ (2 : Int) ^ 63 < 2 ^ 64)
        "9223372036854775808" (2 ^ 63) := by
  have numeral : Numeral "9223372036854775808".toList (2 ^ 63) :=
    @Numeral.plain [8, 0, 8, 5, 7, 7, 4, 5, 8, 6, 3, 0, 2, 7, 3, 3, 2, 2, 9] (by decide) (by decide)
  refine ⟨numeral, fun whole => ?_⟩
  have same := (exactOrRefused_uInt64 numeral.readsInteger).iff_of whole
  omega

end Phrasebook
