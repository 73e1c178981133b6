import Phrasebook.Number.Digits
import Phrasebook.Number.Shortest

/-!
# Numbers as JSON writes them

`Numeric` is the notation of JSON for numbers: an optional minus, digits without a zero in front of
others, and then a fraction, an exponent, both or neither. Whole numbers and doubles are written in it
(`numeric_decimalInt`, `numeric_text`).

The digits of a double never begin with a zero, except those of zero itself. They are a point of a
decimal grid that rounds to the double, and zero rounds to no other double than zero
(`Double.admits_zero`).
-/

namespace Phrasebook.Number

/-! ## The notation -/

/-- At least one digit. -/
def Digits (text : List Char) : Prop :=
  text ≠ [] ∧ ∀ c ∈ text, c.isDigit = true

/-- Digits in front of the point: a zero by itself, or digits that do not begin with a zero. -/
def WholeDigits (text : List Char) : Prop :=
  Digits text ∧ (text = ['0'] ∨ text.head? ≠ some '0')

/-- What stands between the digits in front of the point and the exponent. -/
inductive FractionPart : List Char → Prop
  | none : FractionPart []
  | point {places : List Char} : Digits places → FractionPart ('.' :: places)

/-- The exponent of a number, of any number of digits. -/
inductive ExponentPart : List Char → Prop
  | none : ExponentPart []
  | unsigned {mark : Char} {digits : List Char} :
    mark ∈ ['e', 'E'] → Digits digits → ExponentPart (mark :: digits)
  | signed {mark sign : Char} {digits : List Char} :
    mark ∈ ['e', 'E'] → sign ∈ ['+', '-'] → Digits digits → ExponentPart (mark :: sign :: digits)

/-- Numbers as JSON writes them. -/
inductive Numeric : List Char → Prop
  | mk {minus whole fraction exponent : List Char} :
    minus ∈ [[], ['-']] → WholeDigits whole → FractionPart fraction → ExponentPart exponent →
    Numeric (minus ++ whole ++ fraction ++ exponent)

theorem Digits.append {front back : List Char} (h : Digits front)
    (digits : ∀ c ∈ back, c.isDigit = true) : Digits (front ++ back) :=
  ⟨by simp [h.1], List.forall_mem_append.2 ⟨h.2, digits⟩⟩

theorem Digits.take {text : List Char} (h : Digits text) {count : Nat} (some : 0 < count) :
    Digits (text.take count) := by
  refine ⟨?_, fun c member => h.2 c (List.mem_of_mem_take member)⟩
  simpa using ⟨Nat.ne_of_gt some, h.1⟩

theorem digits_zero : Digits ['0'] :=
  ⟨List.cons_ne_nil _ _, List.forall_mem_singleton.2 rfl⟩

theorem isDigit_of_mem_replicate_zero {count : Nat} :
    ∀ c ∈ List.replicate count '0', c.isDigit = true := by
  intro c member
  rw [(List.mem_replicate.1 member).2]
  rfl

/-! ## Whole numbers -/

theorem digits_decimal (n : Nat) : Digits (decimal n) :=
  ⟨decimal_ne_nil n, List.all_eq_true.1 (all_isDigit_decimal n)⟩

/-- No number but zero begins with a zero. -/
theorem head?_decimal_ne_zero {n : Nat} (h : n ≠ 0) : (decimal n).head? ≠ some '0' := by
  induction n using decimal.induct with
  | case1 n small =>
    have nonzero : ∀ n < 10, n ≠ 0 → digit n ≠ '0' := by decide
    rw [decimal, if_pos small]
    simpa using nonzero n small h
  | case2 n large ih =>
    obtain ⟨c, tail, spelled⟩ := List.exists_cons_of_ne_nil (decimal_ne_nil (n / 10))
    have first := ih (by omega)
    rw [spelled] at first
    rw [decimal, if_neg large, spelled]
    exact first

theorem wholeDigits_decimal (n : Nat) : WholeDigits (decimal n) := by
  refine ⟨digits_decimal n, ?_⟩
  by_cases zero : n = 0
  · subst zero
    exact .inl (by rw [decimal]; rfl)
  · exact .inr (head?_decimal_ne_zero zero)

/-- Whole numbers are written as JSON writes them. -/
theorem numeric_decimalInt (n : Int) : Numeric (decimalInt n) := by
  cases n with
  | ofNat n =>
    have sign : ([] : List Char) ∈ [[], ['-']] := by decide
    simpa [decimalInt] using Numeric.mk sign (wholeDigits_decimal n) .none .none
  | negSucc n =>
    have sign : ['-'] ∈ [[], ['-']] := by decide
    simpa [decimalInt] using Numeric.mk sign (wholeDigits_decimal (n + 1)) .none .none

namespace Double

/-! ## Layouts of digits -/

/-- Digits may be laid out with the first at the place `10 ^ top`: they do not begin with a zero, or
they are a single zero in front of the point. -/
def Leading (digits : List Char) (top : Int) : Prop :=
  digits.head? ≠ some '0' ∨ digits = ['0'] ∧ top = 0

theorem wholeDigits_padded {digits : List Char} {top : Int} (isDigits : Digits digits)
    (leading : Leading digits top) :
    WholeDigits (digits.take (top.toNat + 1) ++
      List.replicate (top.toNat + 1 - digits.length) '0') := by
  refine ⟨(isDigits.take (Nat.succ_pos _)).append isDigit_of_mem_replicate_zero, ?_⟩
  rcases leading with first | ⟨rfl, rfl⟩
  · obtain ⟨c, tail, rfl⟩ := List.exists_cons_of_ne_nil isDigits.1
    exact .inr first
  · exact .inl rfl

theorem numeric_positionalText {minus digits : List Char} {top : Int} (sign : minus ∈ [[], ['-']])
    (isDigits : Digits digits) (leading : Leading digits top) :
    Numeric (minus ++ positionalText digits top) := by
  rw [positionalText]
  split
  · have zero : WholeDigits ['0'] := ⟨digits_zero, .inl rfl⟩
    have places : Digits (List.replicate (-top - 1).toNat '0' ++ digits) :=
      ⟨by simp [isDigits.1], List.forall_mem_append.2 ⟨isDigit_of_mem_replicate_zero, isDigits.2⟩⟩
    simpa using Numeric.mk sign zero (.point places) .none
  · have places : Digits (if digits.length ≤ top.toNat + 1 then ['0']
        else digits.drop (top.toNat + 1)) := by
      split
      · exact digits_zero
      · next long =>
        exact ⟨by simpa using long, fun c member => isDigits.2 c (List.mem_of_mem_drop member)⟩
    simpa using Numeric.mk sign (wholeDigits_padded isDigits leading) (.point places) .none

theorem numeric_scientificText {minus digits : List Char} {top : Int} (sign : minus ∈ [[], ['-']])
    (isDigits : Digits digits) : Numeric (minus ++ scientificText digits top) := by
  obtain ⟨c, tail, rfl⟩ := List.exists_cons_of_ne_nil isDigits.1
  obtain ⟨first, later⟩ := List.forall_mem_cons.1 isDigits.2
  have whole : WholeDigits [c] := by
    refine ⟨⟨by simp, by simpa using first⟩, ?_⟩
    by_cases zero : c = '0'
    · exact .inl (by rw [zero])
    · exact .inr (by simpa using zero)
  have fraction : FractionPart (if (c :: tail).length ≤ 1 then [] else '.' :: tail) := by
    split
    · exact .none
    · next long => exact .point ⟨by rintro rfl; exact long (Nat.le_refl 1), later⟩
  have exponent : ExponentPart ('e' :: exponentText top) := by
    rw [exponentText]
    exact .signed (by decide) (by split <;> decide) (digits_decimal _)
  simpa [scientificText] using Numeric.mk sign whole fraction exponent

/-! ## The digits of a double -/

/-- Zero rounds to no other double than zero. -/
theorem admits_zero {x : Double} (h : x.significand ≠ 0) (power : Int) : x.admits power 0 = false := by
  have positive : 0 < x.lowerEnd := by
    rw [lowerEnd]
    split <;> omega
  have low : 0 < ((x.quarters x.lowerEnd).shift (-power)).num :=
    Nat.mul_pos (Nat.mul_pos positive (Nat.pow_pos (by decide))) (Nat.pow_pos (by decide))
  simp only [admits, Nat.zero_mul]
  split
  · simp [Nat.not_le.2 low]
  · simp

theorem digits_ne_zero_of_onGrid? {x : Double} (h : x.significand ≠ 0) {power : Int}
    {found : Shortest} (onGrid : x.onGrid? power = some found) : found.digits ≠ 0 := by
  obtain ⟨point, isFound, rfl⟩ := Option.map_eq_some_iff.1 onGrid
  rintro (zero : point = 0)
  have admitted := List.find?_some isFound
  rw [zero, admits_zero h] at admitted
  cases admitted

theorem exponent_normalize {s : Shortest} (h : s.digits = 0 → s.exponent = 0) (fuel : Nat) :
    (s.normalize fuel).digits = 0 → (s.normalize fuel).exponent = 0 := by
  induction fuel generalizing s with
  | zero => exact h
  | succ fuel ih =>
    rw [Shortest.normalize]
    split
    · next dropped =>
      -- digits that end in a zero and are not zero are at least ten
      exact ih fun (zero : s.digits / 10 = 0) => by omega
    · exact h

theorem exponent_shortest (x : Double) : x.shortest.digits = 0 → x.shortest.exponent = 0 := by
  rw [shortest]
  split
  · exact fun _ => rfl
  · next nonzero =>
    refine exponent_normalize (fun zero => ?_) 17
    cases found : (List.range 17).findSome? fun (places : Nat) =>
        x.onGrid? ((x.quarters (4 * x.significand)).floorLog10 - places) with
    | none => rfl
    | some point =>
      obtain ⟨places, -, onGrid⟩ := List.exists_of_findSome?_eq_some found
      rw [found] at zero
      exact absurd zero (digits_ne_zero_of_onGrid? nonzero onGrid)

/-- Doubles are written as JSON writes them. -/
theorem numeric_text (x : Double) : Numeric x.text := by
  have sign : (if x.isNegative then ['-'] else []) ∈ [[], ['-']] := by split <;> decide
  have isDigits := digits_decimal x.shortest.digits
  rw [text]
  generalize (if x.isNegative then ['-'] else []) = minus at sign ⊢
  split
  · refine numeric_positionalText sign isDigits ?_
    by_cases zero : x.shortest.digits = 0
    · rw [zero, exponent_shortest x zero, decimal]
      exact .inr ⟨rfl, rfl⟩
    · exact .inl (head?_decimal_ne_zero zero)
  · exact numeric_scientificText sign isDigits

end Double

end Phrasebook.Number
