/-!
# Decimal digits

Whole numbers as decimal text. `decimal` and `decimalInt` write a number, `readInteger?` reads one
with an optional sign. Reading what was written gives the number back (`readInteger?_decimalInt`).
-/

namespace Phrasebook.Number

/-- The digit with a value below ten. -/
def digit (value : Nat) : Char :=
  Char.ofNat (48 + value)

/-- The value of a digit. -/
def digitValue (c : Char) : Nat :=
  c.toNat - 48

/-- The number that a run of digits writes. -/
def ofDigits (digits : List Char) : Nat :=
  digits.foldl (fun value c => 10 * value + digitValue c) 0

/-- The digits of a number, without leading zeros. -/
def decimal (n : Nat) : List Char :=
  if n < 10 then [digit n] else decimal (n / 10) ++ [digit (n % 10)]

/-- A whole number in decimal, with a minus in front when it is negative. -/
def decimalInt : Int → List Char
  | .ofNat n => decimal n
  | .negSucc n => '-' :: decimal (n + 1)

/-- A run of at least one digit, as a number. -/
def readDigits? (text : List Char) : Option Nat :=
  if !text.isEmpty && text.all Char.isDigit then some (ofDigits text) else none

/-- A whole number: an optional sign and at least one digit. -/
def readInteger? : List Char → Option Int
  | '-' :: text => (readDigits? text).map fun n => -(n : Int)
  | '+' :: text => (readDigits? text).map Int.ofNat
  | text => (readDigits? text).map Int.ofNat

/-! ## Reading what was written -/

theorem digit_isDigit : ∀ value, value < 10 → (digit value).isDigit = true := by decide

theorem digitValue_digit : ∀ value, value < 10 → digitValue (digit value) = value := by decide

theorem ofDigits_append_singleton (digits : List Char) (c : Char) :
    ofDigits (digits ++ [c]) = 10 * ofDigits digits + digitValue c := by
  simp [ofDigits, List.foldl_append]

theorem ofDigits_decimal (n : Nat) : ofDigits (decimal n) = n := by
  induction n using decimal.induct with
  | case1 n h =>
    rw [decimal, if_pos h]
    simp [ofDigits, digitValue_digit n h]
  | case2 n h ih =>
    rw [decimal, if_neg h, ofDigits_append_singleton, ih,
      digitValue_digit _ (Nat.mod_lt _ (by decide))]
    omega

theorem decimal_ne_nil (n : Nat) : decimal n ≠ [] := by
  rw [decimal]; split <;> simp

theorem all_isDigit_decimal (n : Nat) : (decimal n).all Char.isDigit = true := by
  induction n using decimal.induct with
  | case1 n h =>
    rw [decimal, if_pos h]
    simp [digit_isDigit n h]
  | case2 n h ih =>
    rw [decimal, if_neg h, List.all_append, ih]
    simp [digit_isDigit _ (Nat.mod_lt n (by decide : 0 < 10))]

theorem readDigits?_decimal (n : Nat) : readDigits? (decimal n) = some n := by
  simp [readDigits?, decimal_ne_nil, all_isDigit_decimal, ofDigits_decimal]

/-- A text that begins with a digit is read without a sign. -/
theorem readInteger?_eq_of_isDigit {c : Char} {text : List Char} (h : c.isDigit = true) :
    readInteger? (c :: text) = (readDigits? (c :: text)).map Int.ofNat := by
  unfold readInteger?
  split
  · next eq => cases eq; simp at h
  · next eq => cases eq; simp at h
  · rfl

/-- Reading the decimal text of a whole number gives the number. -/
theorem readInteger?_decimalInt (n : Int) : readInteger? (decimalInt n) = some n := by
  cases n with
  | ofNat n =>
    have digits := all_isDigit_decimal n
    have read := readDigits?_decimal n
    simp only [decimalInt]
    cases h : decimal n with
    | nil => exact absurd h (decimal_ne_nil n)
    | cons c text =>
      rw [h] at digits read
      rw [readInteger?_eq_of_isDigit (by simp_all), read]
      rfl
  | negSucc n => simp [decimalInt, readInteger?, readDigits?_decimal, Int.negSucc_eq]

end Phrasebook.Number
