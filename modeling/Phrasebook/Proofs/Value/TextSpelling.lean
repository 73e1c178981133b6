import Phrasebook.Value.Quotation

/-!
# Spellings of a text between quotes

Between quotes, a character may be written as itself, behind a backslash, by a letter that names a control,
or by its code units in hexadecimal: `SpellsChar` and, for a whole text, `SpellsText`. `readQuoted` reads
every spelling of a text as the text, up to the quote behind it (`SpellsText.readQuoted_append`).
-/

namespace Phrasebook.Value

/-! ## Code units -/

/-- A hexadecimal digit of either case. -/
def hexDigit (upper : Bool) (value : Nat) : Char :=
  if value < 10 then Char.ofNat (48 + value)
  else if upper then Char.ofNat (55 + value)
  else Char.ofNat (87 + value)

/-- The four hexadecimal digits of a code unit, each of the case that `upper` gives for its place. -/
def hexDigits (upper : Fin 4 → Bool) (unit : Nat) : List Char :=
  [hexDigit (upper 0) (unit / 4096 % 16), hexDigit (upper 1) (unit / 256 % 16),
    hexDigit (upper 2) (unit / 16 % 16), hexDigit (upper 3) (unit % 16)]

/-- The first half of the surrogate pair of a character above the first plane. -/
def highSurrogate (c : Char) : Nat :=
  0xD800 + (c.toNat - 0x10000) / 0x400

/-- The second half of the surrogate pair of a character above the first plane. -/
def lowSurrogate (c : Char) : Nat :=
  0xDC00 + (c.toNat - 0x10000) % 0x400

theorem hexValue?_hexDigit :
    ∀ upper value, value < 16 → hexValue? (hexDigit upper value) = some value := by
  decide

theorem readHex_hexDigits (upper : Fin 4 → Bool) {unit : Nat} (bound : unit < 0x10000)
    (rest : List Char) : readHex 4 0 (hexDigits upper unit ++ rest) = .ok (unit, rest) := by
  have digit : ∀ place value, hexValue? (hexDigit (upper place) (value % 16)) = some (value % 16) :=
    fun place value => hexValue?_hexDigit _ _ (Nat.mod_lt value (by decide))
  have whole : 16 * (16 * (16 * (16 * 0 + unit / 4096 % 16) + unit / 256 % 16) + unit / 16 % 16) +
      unit % 16 = unit := by omega
  simp only [hexDigits, List.cons_append, List.nil_append, readHex, digit, whole]

/-- A character is no half of a surrogate pair. -/
theorem toNat_not_surrogate (c : Char) :
    isHighSurrogate c.toNat = false ∧ isLowSurrogate c.toNat = false := by
  have valid : c.toNat < 0xD800 ∨ 0xDFFF < c.toNat ∧ c.toNat < 0x110000 := c.valid
  simp only [isHighSurrogate, isLowSurrogate, Bool.and_eq_false_iff, decide_eq_false_iff_not]
  omega

theorem joinSurrogates_surrogates {c : Char} (above : 0x10000 ≤ c.toNat) :
    isHighSurrogate (highSurrogate c) = true ∧ isLowSurrogate (lowSurrogate c) = true ∧
      joinSurrogates (highSurrogate c) (lowSurrogate c) = c := by
  have valid : c.toNat < 0xD800 ∨ 0xDFFF < c.toNat ∧ c.toNat < 0x110000 := c.valid
  have high : 0xD800 ≤ highSurrogate c ∧ highSurrogate c < 0xDC00 := by
    rw [highSurrogate]
    omega
  have low : 0xDC00 ≤ lowSurrogate c ∧ lowSurrogate c < 0xE000 := by
    rw [lowSurrogate]
    omega
  have joined : 0x10000 + (highSurrogate c - 0xD800) * 0x400 + (lowSurrogate c - 0xDC00) =
      c.toNat := by
    rw [highSurrogate, lowSurrogate]
    omega
  refine ⟨?_, ?_, ?_⟩
  · simpa [isHighSurrogate] using high
  · simpa [isLowSurrogate] using low
  · rw [joinSurrogates, joined, Char.ofNat_toNat]

/-! ## Characters -/

/-- The letters and digits that name controls behind a backslash, with the controls. -/
def controls : List (Char × Char) :=
  [('n', '\n'), ('t', '\t'), ('r', '\r'), ('b', '\x08'), ('f', '\x0c'), ('0', '\x00')]

/-- How a character may be written between quotes. -/
inductive SpellsChar (quote : Char) : List Char → Char → Prop
  | plain {c : Char} : c ≠ quote → c ≠ '\\' → SpellsChar quote [c] c
  | escaped {c : Char} :
    c ∉ ['n', 't', 'r', 'b', 'f', '0', 'u'] → SpellsChar quote ['\\', c] c
  | control {letter c : Char} : (letter, c) ∈ controls → SpellsChar quote ['\\', letter] c
  | code {c : Char} (upper : Fin 4 → Bool) :
    c.toNat < 0x10000 → SpellsChar quote ('\\' :: 'u' :: hexDigits upper c.toNat) c
  | codes {c : Char} (upper upper' : Fin 4 → Bool) :
    0x10000 ≤ c.toNat →
    SpellsChar quote ('\\' :: 'u' :: (hexDigits upper (highSurrogate c) ++
      '\\' :: 'u' :: hexDigits upper' (lowSurrogate c))) c

/-- How a text may be written between quotes. -/
inductive SpellsText (quote : Char) : List Char → List Char → Prop
  | nil : SpellsText quote [] []
  | cons {front back : List Char} {c : Char} {text : List Char} :
    SpellsChar quote front c → SpellsText quote back text →
    SpellsText quote (front ++ back) (c :: text)

theorem unescaped_of_mem_controls {letter c : Char} (h : (letter, c) ∈ controls) :
    letter ≠ 'u' ∧ unescaped letter = c := by
  simp only [controls, List.mem_cons, Prod.mk.injEq, List.not_mem_nil, or_false] at h
  rcases h with ⟨rfl, rfl⟩ | ⟨rfl, rfl⟩ | ⟨rfl, rfl⟩ | ⟨rfl, rfl⟩ | ⟨rfl, rfl⟩ | ⟨rfl, rfl⟩ <;>
    decide

theorem unescaped_of_notMem {c : Char} (h : c ∉ ['n', 't', 'r', 'b', 'f', '0', 'u']) :
    c ≠ 'u' ∧ unescaped c = c := by
  simp only [List.mem_cons, List.not_mem_nil, or_false, not_or] at h
  exact ⟨h.2.2.2.2.2.2, by simp [unescaped, h]⟩

theorem readCodeEscape_hexDigits (upper : Fin 4 → Bool) {c : Char} (first : c.toNat < 0x10000)
    (rest : List Char) : readCodeEscape (hexDigits upper c.toNat ++ rest) = .ok (c, rest) := by
  obtain ⟨notHigh, notLow⟩ := toNat_not_surrogate c
  rw [readCodeEscape, readHex_hexDigits upper first]
  simp only [notHigh, notLow, Bool.false_eq_true, if_false, Char.ofNat_toNat]

theorem readCodeEscape_surrogates (upper upper' : Fin 4 → Bool) {c : Char}
    (above : 0x10000 ≤ c.toNat) (rest : List Char) :
    readCodeEscape (hexDigits upper (highSurrogate c) ++
      '\\' :: 'u' :: (hexDigits upper' (lowSurrogate c) ++ rest)) = .ok (c, rest) := by
  obtain ⟨isHigh, isLow, joined⟩ := joinSurrogates_surrogates above
  have bounds : highSurrogate c < 0x10000 ∧ lowSurrogate c < 0x10000 := by
    simp only [isHighSurrogate, isLowSurrogate, Bool.and_eq_true, decide_eq_true_eq] at isHigh isLow
    omega
  rw [readCodeEscape, readHex_hexDigits upper bounds.1]
  simp only [isHigh, if_true, readLowSurrogate, and_self, readHex_hexDigits upper' bounds.2, isLow,
    joined]

/-- What is read of a spelling of a character is the character. -/
theorem SpellsChar.readQuoted_append {quote : Char} (h : quote = '"' ∨ quote = '\'')
    {front : List Char} {c : Char} (spells : SpellsChar quote front c) {opening text : List Char}
    {content rest : List Char} (later : readQuoted quote opening text = .ok (content, rest)) :
    readQuoted quote opening (front ++ text) = .ok (c :: content, rest) := by
  have backslash : '\\' ≠ quote := by rcases h with rfl | rfl <;> decide
  -- everything but a plain character is an escape
  have escape : ∀ written, readEscape (written ++ text) = .ok (c, text) →
      readQuoted quote opening ('\\' :: written ++ text) = .ok (c :: content, rest) := by
    intro written read
    rw [List.cons_append, readQuoted_cons, if_neg backslash, if_pos rfl, read]
    simp only [later]
  cases spells with
  | plain noQuote noBackslash =>
    rw [List.singleton_append, readQuoted_cons, if_neg noQuote, if_neg noBackslash, later]
  | escaped notMem =>
    obtain ⟨noCode, meaning⟩ := unescaped_of_notMem notMem
    refine escape [c] ?_
    rw [List.singleton_append, readEscape, if_neg noCode, meaning]
  | @control letter _ isControl =>
    obtain ⟨noCode, meaning⟩ := unescaped_of_mem_controls isControl
    refine escape [letter] ?_
    rw [List.singleton_append, readEscape, if_neg noCode, meaning]
  | code upper first =>
    refine escape _ ?_
    rw [List.cons_append, readEscape, if_pos rfl, readCodeEscape_hexDigits upper first]
  | codes upper upper' above =>
    refine escape _ ?_
    rw [List.cons_append, readEscape, if_pos rfl, List.append_assoc, List.cons_append,
      List.cons_append, readCodeEscape_surrogates upper upper' above]

/-- **Text between quotes.** Every spelling of a text is read as the text, up to the quote behind it. -/
theorem SpellsText.readQuoted_append {quote : Char} (h : quote = '"' ∨ quote = '\'')
    {written content : List Char} (spells : SpellsText quote written content)
    (opening rest : List Char) :
    readQuoted quote opening (written ++ quote :: rest) = .ok (content, rest) := by
  induction spells with
  | nil => rw [List.nil_append, readQuoted_cons, if_pos rfl]
  | cons first _ ih =>
    rw [List.append_assoc]
    exact first.readQuoted_append h ih

end Phrasebook.Value
