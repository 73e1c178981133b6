import Phrasebook.Value.Quotation

/-!
# Strings and blanks of TOML

The four kinds of strings that TOML knows and what may stand around its parts. `readString?` reads a
string of any kind and `readSimpleKey?` one component of a key; `skipBlanks`, `skipComment?` and
`skipFiller?` drop blanks, a comment, and any number of both over several lines. A text that breaks
the rules is refused without a reason.
-/

namespace Phrasebook.Toml

open Phrasebook.Value

/-- How deep arrays and tables in braces may nest, and how many components a key may have. -/
def nestingLimit : Nat := 79

/-! ## Characters -/

/-- A blank inside a line. -/
def isBlank (c : Char) : Bool :=
  c = ' ' || c = '\t'

/-- A character that may stand in comments and strings; the only control among them is the tab. -/
def isPrintable (c : Char) : Bool :=
  c = '\t' || (0x20 ≤ c.toNat && c.toNat ≠ 0x7F)

/-- Drops the blanks in front of a text. -/
def skipBlanks (text : List Char) : List Char :=
  text.dropWhile isBlank

theorem length_skipBlanks_le (text : List Char) : (skipBlanks text).length ≤ text.length :=
  (List.dropWhile_sublist _).length_le

theorem length_lt_of_skipBlanks {text tail : List Char} {c : Char}
    (h : skipBlanks text = c :: tail) : tail.length < text.length := by
  have := length_skipBlanks_le text
  rw [h, List.length_cons] at this
  exact this

/-- Takes away a line feed, with a carriage return in front of it or without. -/
def takeNewline? : List Char → Option (List Char)
  | [] => none
  | [c] => if c = '\n' then some [] else none
  | c :: d :: text =>
    if c = '\n' then some (d :: text)
    else if c = '\r' ∧ d = '\n' then some text
    else none

theorem length_lt_of_takeNewline? {text rest : List Char} (h : takeNewline? text = some rest) :
    rest.length < text.length := by
  fun_cases takeNewline? text <;> grind [takeNewline?]

/-- Takes away a comment, if the text begins with one. -/
def skipComment? (text : List Char) : Option (List Char) :=
  match text with
  | [] => some []
  | c :: tail =>
    if c = '#' then
      let rest := tail.dropWhile isPrintable
      if rest.isEmpty || (takeNewline? rest).isSome then some rest else none
    else some (c :: tail)

theorem length_le_of_skipComment? {text rest : List Char} (h : skipComment? text = some rest) :
    rest.length ≤ text.length := by
  unfold skipComment? at h
  split at h
  · simp_all
  · next c tail =>
    have := (List.dropWhile_sublist (l := tail) isPrintable).length_le
    grind

/-- Drops blanks, comments and line breaks. -/
def skipFiller? (text : List Char) : Option (List Char) :=
  match commented : skipComment? (skipBlanks text) with
  | none => none
  | some rest =>
    match broken : takeNewline? rest with
    | none => some rest
    | some rest' =>
      have : rest'.length < text.length := by
        have := length_skipBlanks_le text
        have := length_le_of_skipComment? commented
        have := length_lt_of_takeNewline? broken
        omega
      skipFiller? rest'
termination_by text.length

theorem length_le_of_skipFiller? {text rest : List Char} (h : skipFiller? text = some rest) :
    rest.length ≤ text.length := by
  fun_induction skipFiller? text with
  | case1 => cases h
  | case2 text rest' commented =>
    have := length_skipBlanks_le text
    have := length_le_of_skipComment? commented
    grind
  | case3 => grind

/-! ## Escapes -/

/-- What a character means behind a backslash, code escapes apart. -/
def escapeMeaning? (c : Char) : Option Char :=
  if c = '"' ∨ c = '\\' ∨ c = 'b' ∨ c = 't' ∨ c = 'n' ∨ c = 'f' ∨ c = 'r' then some (unescaped c)
  else none

/-- Reads the digits of a code escape; the code must be that of a character. -/
def readCode? (digits : Nat) (text : List Char) : Option (Char × List Char) :=
  match readHex digits 0 text with
  | .error _ => none
  | .ok (code, rest) => if code.isValidChar then some (Char.ofNat code, rest) else none

/-- Reads an escape behind its backslash. -/
def readEscape? : List Char → Option (Char × List Char)
  | [] => none
  | c :: text =>
    if c = 'u' then readCode? 4 text
    else if c = 'U' then readCode? 8 text
    else
      match escapeMeaning? c with
      | none => none
      | some meaning => some (meaning, text)

theorem length_le_of_readCode? {digits : Nat} {text : List Char} {result : Char × List Char}
    (h : readCode? digits text = some result) : result.2.length ≤ text.length := by
  unfold readCode? at h
  split at h
  · cases h
  · next code rest read =>
    have : rest.length ≤ text.length := length_le_of_readHex read
    split at h
    · rw [← Option.some.inj h]
      exact this
    · cases h

theorem length_lt_of_readEscape? {text : List Char} {result : Char × List Char}
    (h : readEscape? text = some result) : result.2.length < text.length := by
  unfold readEscape? at h
  grind [→ length_le_of_readCode?]

/-! ## Strings on one line -/

/-- Reads a string with escapes up to its closing quote. -/
def readBasic? (text : List Char) : Option (List Char × List Char) :=
  match text with
  | [] => none
  | c :: tail =>
    if c = '"' then some ([], tail)
    else if c = '\\' then
      match h : readEscape? tail with
      | none => none
      | some (meaning, rest) =>
        have : rest.length < tail.length := length_lt_of_readEscape? h
        match readBasic? rest with
        | none => none
        | some (content, rest) => some (meaning :: content, rest)
    else if isPrintable c then
      match readBasic? tail with
      | none => none
      | some (content, rest) => some (c :: content, rest)
    else none
termination_by text.length

/-- Reads a string without escapes up to its closing quote. -/
def readLiteral? : List Char → Option (List Char × List Char)
  | [] => none
  | c :: tail =>
    if c = '\'' then some ([], tail)
    else if isPrintable c then
      match readLiteral? tail with
      | none => none
      | some (content, rest) => some (c :: content, rest)
    else none

theorem length_lt_of_readBasic? {text : List Char} {result : List Char × List Char}
    (h : readBasic? text = some result) : result.2.length < text.length := by
  fun_induction readBasic? text generalizing result <;> grind

theorem length_lt_of_readLiteral? {text : List Char} {result : List Char × List Char}
    (h : readLiteral? text = some result) : result.2.length < text.length := by
  fun_induction readLiteral? text generalizing result <;> grind

/-! ## Strings over several lines -/

/-- Drops blanks and line breaks. -/
def skipLines : List Char → List Char
  | [] => []
  | [c] => if isBlank c || c = '\n' then [] else [c]
  | c :: d :: text =>
    if isBlank c || c = '\n' then skipLines (d :: text)
    else if c = '\r' ∧ d = '\n' then skipLines text
    else c :: d :: text

theorem length_skipLines_le (text : List Char) : (skipLines text).length ≤ text.length := by
  fun_induction skipLines text <;> grind

/-- Reads a string up to its closing quotes, three of a kind: up to two more in front of them belong to
the string. With `escapes`, backslashes have a meaning; one at the end of a line drops the line break and
the blanks behind it. -/
def readLong? (quote : Char) (escapes : Bool) (text : List Char) :
    Option (List Char × List Char) :=
  match text with
  | [] => none
  | c :: tail =>
    if c = quote then
      let more := (tail.takeWhile (· = quote)).length
      if more < 2 then
        match readLong? quote escapes (tail.drop more) with
        | none => none
        | some (content, rest) => some (List.replicate (more + 1) quote ++ content, rest)
      else if more < 5 then some (List.replicate (more - 2) quote, tail.drop more)
      else none
    else if c = '\\' ∧ escapes = true then
      if (takeNewline? (skipBlanks tail)).isSome then
        have : (skipLines tail).length ≤ tail.length := length_skipLines_le tail
        readLong? quote escapes (skipLines tail)
      else
        match h : readEscape? tail with
        | none => none
        | some (meaning, rest) =>
          have : rest.length < tail.length := length_lt_of_readEscape? h
          match readLong? quote escapes rest with
          | none => none
          | some (content, rest) => some (meaning :: content, rest)
    else
      match broken : takeNewline? (c :: tail) with
      | some rest =>
        have : rest.length < tail.length + 1 := length_lt_of_takeNewline? broken
        match readLong? quote escapes rest with
        | none => none
        | some (content, rest) => some ('\n' :: content, rest)
      | none =>
        if isPrintable c then
          match readLong? quote escapes tail with
          | none => none
          | some (content, rest) => some (c :: content, rest)
        else none
termination_by text.length
decreasing_by all_goals (simp only [List.length_cons, List.length_drop]; omega)

theorem length_lt_of_readLong? {quote : Char} {escapes : Bool} {text : List Char}
    {result : List Char × List Char} (h : readLong? quote escapes text = some result) :
    result.2.length < text.length := by
  fun_induction readLong? quote escapes text generalizing result <;>
    grind [length_skipLines_le, → length_lt_of_readEscape?, → length_lt_of_takeNewline?]

/-- The quotes that open strings, and whether backslashes have a meaning between them. -/
def quoteKind? (c : Char) : Option Bool :=
  if c = '"' then some true else if c = '\'' then some false else none

/-- Reads a string of one line, whose opening quote is `quote`. -/
def readShort? (escapes : Bool) (text : List Char) : Option (List Char × List Char) :=
  if escapes then readBasic? text else readLiteral? text

theorem length_lt_of_readShort? {escapes : Bool} {text : List Char}
    {result : List Char × List Char} (h : readShort? escapes text = some result) :
    result.2.length < text.length := by
  unfold readShort? at h
  split at h
  · exact length_lt_of_readBasic? h
  · exact length_lt_of_readLiteral? h

/-- Reads a string of any kind behind its first quote. Three quotes open a string over several lines,
of which a line break directly behind them is no part. -/
def readString? (quote : Char) (escapes : Bool) (text : List Char) :
    Option (List Char × List Char) :=
  match text with
  | c :: d :: tail =>
    if c = quote ∧ d = quote then readLong? quote escapes ((takeNewline? tail).getD tail)
    else readShort? escapes text
  | _ => readShort? escapes text

theorem length_lt_of_readString? {quote : Char} {escapes : Bool} {text : List Char}
    {result : List Char × List Char} (h : readString? quote escapes text = some result) :
    result.2.length < text.length := by
  unfold readString? at h
  split at h
  · next c d tail =>
    split at h
    · have := length_lt_of_readLong? h
      cases broken : takeNewline? tail with
      | none => simp [broken] at this ⊢; omega
      | some rest =>
        have := length_lt_of_takeNewline? broken
        simp_all
        omega
    · exact length_lt_of_readShort? h
  · exact length_lt_of_readShort? h

/-! ## Keys -/

/-- A character of a key without quotes. -/
def isBareKey (c : Char) : Bool :=
  c.isAlphanum || c = '_' || c = '-'

/-- Reads one component of a key: a string of one line, or a run of letters, digits, `_` and `-`. -/
def readSimpleKey? : List Char → Option (List Char × List Char)
  | [] => none
  | c :: text =>
    match quoteKind? c with
    | some escapes => readShort? escapes text
    | none =>
      if isBareKey c then some (c :: text.takeWhile isBareKey, text.dropWhile isBareKey) else none

theorem length_lt_of_readSimpleKey? {text : List Char} {result : List Char × List Char}
    (h : readSimpleKey? text = some result) : result.2.length < text.length := by
  unfold readSimpleKey? at h
  split at h
  · cases h
  · next c text =>
    have := (List.dropWhile_sublist (l := text) isBareKey).length_le
    grind [→ length_lt_of_readShort?]

/-- Reads the components of a key with points between them. -/
def readComponents? (text : List Char) : Option (List String × List Char) :=
  match first : readSimpleKey? text with
  | none => none
  | some (component, rest) =>
    match next : skipBlanks rest with
    | [] => some ([String.ofList component], [])
    | c :: tail =>
      if c = '.' then
        have : (skipBlanks tail).length < text.length :=
          Nat.lt_of_le_of_lt (length_skipBlanks_le tail)
            (Nat.lt_trans (length_lt_of_skipBlanks next) (length_lt_of_readSimpleKey? first))
        match readComponents? (skipBlanks tail) with
        | none => none
        | some (components, rest) => some (String.ofList component :: components, rest)
      else some ([String.ofList component], c :: tail)
termination_by text.length

theorem length_lt_of_readComponents? {text : List Char} {result : List String × List Char}
    (h : readComponents? text = some result) : result.2.length < text.length := by
  fun_induction readComponents? text generalizing result with
  | case1 => cases h
  | case2 text component rest first next =>
    have := length_lt_of_readSimpleKey? first
    grind
  | case3 => cases h
  | case4 => grind
  | case5 text component rest first c tail next =>
    have := length_lt_of_readSimpleKey? first
    have := length_skipBlanks_le rest
    grind

/-- Reads a key: components with points between them, but not too many. -/
def readKey? (text : List Char) : Option (List String × List Char) :=
  match readComponents? text with
  | none => none
  | some (components, rest) =>
    if nestingLimit < components.length then none else some (components, rest)

theorem length_lt_of_readKey? {text : List Char} {result : List String × List Char}
    (h : readKey? text = some result) : result.2.length < text.length := by
  unfold readKey? at h
  grind [→ length_lt_of_readComponents?]

end Phrasebook.Toml
