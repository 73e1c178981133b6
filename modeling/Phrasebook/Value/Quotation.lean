import Phrasebook.Value.Fault

/-!
# Quotations and escapes

Text between quotes, in which a backslash changes the meaning of what follows it. `readEscape` reads
one escape behind its backslash and `readQuoted` the text up to the closing quote. A character above
the first plane is written by two code escapes, the halves of a surrogate pair; half a pair is a
fault, as is a quotation that is not closed.

Both take characters away from the text: `length_lt_of_readEscape` and `length_lt_of_readQuoted`.
-/

namespace Phrasebook.Value

/-! ## Escapes -/

/-- The value of a hexadecimal digit of either case. -/
def hexValue? (c : Char) : Option Nat :=
  if c.isDigit then some (c.toNat - '0'.toNat)
  else if 'a' ≤ c ∧ c ≤ 'f' then some (c.toNat - 'a'.toNat + 10)
  else if 'A' ≤ c ∧ c ≤ 'F' then some (c.toNat - 'A'.toNat + 10)
  else none

/-- Reads `count` hexadecimal digits onto the digits already read. -/
def readHex : (count value : Nat) → List Char → Except Fault (Nat × List Char)
  | 0, value, text => .ok (value, text)
  | _ + 1, _, [] => .error ⟨.invalidCodeEscape, []⟩
  | count + 1, value, c :: text =>
    match hexValue? c with
    | some d => readHex count (16 * value + d) text
    | none => .error ⟨.invalidCodeEscape, text⟩

/-- Whether a code unit is the first half of a surrogate pair. -/
def isHighSurrogate (unit : Nat) : Bool :=
  0xD800 ≤ unit && unit < 0xDC00

/-- Whether a code unit is the second half of a surrogate pair. -/
def isLowSurrogate (unit : Nat) : Bool :=
  0xDC00 ≤ unit && unit < 0xE000

/-- The character that a surrogate pair stands for. -/
def joinSurrogates (high low : Nat) : Char :=
  Char.ofNat (0x10000 + (high - 0xD800) * 0x400 + (low - 0xDC00))

/-- Reads the second half of a surrogate pair, itself a code escape. -/
def readLowSurrogate (high : Nat) : List Char → Except Fault (Char × List Char)
  | c :: d :: text =>
    if c = '\\' ∧ d = 'u' then
      match readHex 4 0 text with
      | .error fault => .error fault
      | .ok (low, rest) =>
        if isLowSurrogate low then .ok (joinSurrogates high low, rest)
        else .error ⟨.unpairedSurrogate, rest⟩
    else .error ⟨.unpairedSurrogate, c :: d :: text⟩
  | text => .error ⟨.unpairedSurrogate, text⟩

/-- Reads the digits of a code escape, and of the one that completes a surrogate pair. -/
def readCodeEscape (text : List Char) : Except Fault (Char × List Char) :=
  match readHex 4 0 text with
  | .error fault => .error fault
  | .ok (unit, rest) =>
    if isHighSurrogate unit then readLowSurrogate unit rest
    else if isLowSurrogate unit then .error ⟨.invalidCodeEscape, rest⟩
    else .ok (Char.ofNat unit, rest)

/-- What a character means behind a backslash, if it is not a code escape: six letters and digits
name controls, and every other character stands for itself. -/
def unescaped (c : Char) : Char :=
  if c = 'n' then '\n'
  else if c = 't' then '\t'
  else if c = 'r' then '\r'
  else if c = 'b' then '\x08'
  else if c = 'f' then '\x0c'
  else if c = '0' then '\x00'
  else c

/-- Reads an escape, whose backslash has been taken away. -/
def readEscape : List Char → Except Fault (Char × List Char)
  | [] => .error ⟨.incompleteEscape, []⟩
  | c :: text => if c = 'u' then readCodeEscape text else .ok (unescaped c, text)

theorem length_le_of_readHex {count value : Nat} {text : List Char} {result : Nat × List Char}
    (h : readHex count value text = .ok result) : result.2.length ≤ text.length := by
  fun_induction readHex count value text with
  | case1 =>
    cases h
    exact Nat.le_refl _
  | case2 => cases h
  | case3 =>
    rename_i ih
    exact Nat.le_succ_of_le (ih h)
  | case4 => cases h

theorem length_le_of_readLowSurrogate {high : Nat} {text : List Char}
    {result : Char × List Char} (h : readLowSurrogate high text = .ok result) :
    result.2.length ≤ text.length := by
  unfold readLowSurrogate at h
  split at h
  · split at h
    · split at h
      · cases h
      · next read =>
        have shorter := length_le_of_readHex read
        split at h
        · obtain ⟨-, rfl⟩ := Prod.mk.inj (Except.ok.inj h)
          exact Nat.le_succ_of_le (Nat.le_succ_of_le shorter)
        · cases h
    · cases h
  · cases h

theorem length_le_of_readCodeEscape {text : List Char} {result : Char × List Char}
    (h : readCodeEscape text = .ok result) : result.2.length ≤ text.length := by
  unfold readCodeEscape at h
  split at h
  · cases h
  · next read =>
    have shorter := length_le_of_readHex read
    split at h
    · exact Nat.le_trans (length_le_of_readLowSurrogate h) shorter
    · split at h
      · cases h
      · cases h
        exact shorter

/-- An escape takes at least one character. -/
theorem length_lt_of_readEscape {text : List Char} {result : Char × List Char}
    (h : readEscape text = .ok result) : result.2.length < text.length := by
  cases text with
  | nil => cases h
  | cons c text =>
    rw [readEscape] at h
    split at h
    · exact Nat.lt_succ_of_le (length_le_of_readCodeEscape h)
    · cases h
      exact Nat.lt_succ_self _

/-! ## Quotations -/

/-- Reads text up to the closing quote. The quotation began at `opening`. -/
def readQuoted (quote : Char) (opening text : List Char) : Except Fault (List Char × List Char) :=
  match text with
  | [] => .error ⟨.unterminatedString quote, opening⟩
  | c :: tail =>
    if c = quote then .ok ([], tail)
    else if c = '\\' then
      match h : readEscape tail with
      | .error fault => .error fault
      | .ok (meaning, rest) =>
        have : rest.length < tail.length := length_lt_of_readEscape h
        match readQuoted quote opening rest with
        | .error fault => .error fault
        | .ok (content, rest) => .ok (meaning :: content, rest)
    else
      match readQuoted quote opening tail with
      | .error fault => .error fault
      | .ok (content, rest) => .ok (c :: content, rest)
termination_by text.length

/-- The rule for a quotation, by its first character. -/
theorem readQuoted_cons (quote : Char) (opening : List Char) (c : Char) (tail : List Char) :
    readQuoted quote opening (c :: tail) =
      if c = quote then .ok ([], tail)
      else if c = '\\' then
        match readEscape tail with
        | .error fault => .error fault
        | .ok (meaning, rest) =>
          match readQuoted quote opening rest with
          | .error fault => .error fault
          | .ok (content, rest) => .ok (meaning :: content, rest)
      else
        match readQuoted quote opening tail with
        | .error fault => .error fault
        | .ok (content, rest) => .ok (c :: content, rest) := by
  rw [readQuoted]
  by_cases closes : c = quote
  · rw [if_pos closes, if_pos closes]
  · rw [if_neg closes, if_neg closes]
    by_cases escapes : c = '\\'
    · rw [if_pos escapes, if_pos escapes]
      split
      · next read => simp only [read]
      · next read => simp only [read]
    · rw [if_neg escapes, if_neg escapes]

/-- A quotation takes at least the closing quote. -/
theorem length_lt_of_readQuoted {quote : Char} {opening text : List Char}
    {result : List Char × List Char} (h : readQuoted quote opening text = .ok result) :
    result.2.length < text.length := by
  fun_induction readQuoted quote opening text generalizing result with
  | case1 => cases h
  | case2 =>
    cases h
    exact Nat.lt_succ_self _
  | case3 => cases h
  | case4 => cases h
  | case5 =>
    rename_i taken _ _ read _ ih
    cases h
    have shorter := ih read
    exact Nat.lt_succ_of_lt (Nat.lt_trans shorter taken)
  | case6 => cases h
  | case7 =>
    rename_i read ih
    cases h
    have shorter := ih read
    exact Nat.lt_succ_of_lt shorter

end Phrasebook.Value
