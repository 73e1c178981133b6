import Phrasebook.Number.Scaled
import Phrasebook.Value.Reader

/-!
# JSON

A reader for JSON proper, as files and messages hold it: no comments, no bare words, quotes of one kind
and commas exactly between items. `ofJson?` reads a whole text, in which arrays and objects may nest
to a given depth. Of a name that is given twice the later value counts, as in every object.

A number without fraction and exponent is a whole number if it lies in the range of 64 bits with or
without sign, and a double otherwise; negative zero is a double. Doubles are computed from the digits
that fit 64 bits by a scaling (`jsonDouble?`), so the last place may not be that of the closest double.
-/

namespace Phrasebook.Value

open Phrasebook.Number

/-- The blanks that JSON allows between its parts. -/
def isJsonBlank (c : Char) : Bool :=
  c = ' ' || c = '\n' || c = '\t' || c = '\r'

/-- Drops blanks in front of a text. -/
def skipJsonBlanks (text : List Char) : List Char :=
  text.dropWhile isJsonBlank

theorem length_skipJsonBlanks_le (text : List Char) :
    (skipJsonBlanks text).length ≤ text.length :=
  (List.dropWhile_sublist _).length_le

theorem length_lt_of_skipJsonBlanks {text tail : List Char} {c : Char}
    (h : skipJsonBlanks text = c :: tail) : tail.length < text.length := by
  have := length_skipJsonBlanks_le text
  rw [h, List.length_cons] at this
  exact this

/-! ## Strings and numbers -/

/-- Whether JSON knows the escape that a character makes behind a backslash, code escapes apart. -/
def isJsonEscape (c : Char) : Bool :=
  c = '"' || c = '\\' || c = '/' || c = 'b' || c = 'f' || c = 'n' || c = 'r' || c = 't'

/-- Reads an escape behind its backslash; only those that JSON knows are allowed. -/
def readJsonEscape? : List Char → Option (Char × List Char)
  | [] => none
  | c :: text =>
    if c = 'u' then (readCodeEscape text).toOption
    else if isJsonEscape c then some (unescaped c, text)
    else none

theorem length_lt_of_readJsonEscape? {text : List Char} {result : Char × List Char}
    (h : readJsonEscape? text = some result) : result.2.length < text.length := by
  cases text with
  | nil => cases h
  | cons c text =>
    unfold readJsonEscape? at h
    cases read : readCodeEscape text with
    | error fault => grind [Except.toOption]
    | ok value =>
      have := length_le_of_readCodeEscape read
      grind [Except.toOption]

/-- Reads a JSON string behind its opening quote. Controls must be escaped. -/
def readJsonString? (text : List Char) : Option (List Char × List Char) :=
  match text with
  | [] => none
  | c :: tail =>
    if c = '"' then some ([], tail)
    else if c = '\\' then
      match h : readJsonEscape? tail with
      | none => none
      | some (meaning, rest) =>
        have : rest.length < tail.length := length_lt_of_readJsonEscape? h
        match readJsonString? rest with
        | none => none
        | some (content, rest) => some (meaning :: content, rest)
    else if c.toNat < 0x20 then none
    else
      match readJsonString? tail with
      | none => none
      | some (content, rest) => some (c :: content, rest)
termination_by text.length

theorem length_lt_of_readJsonString? {text : List Char} {result : List Char × List Char}
    (h : readJsonString? text = some result) : result.2.length < text.length := by
  fun_induction readJsonString? text generalizing result <;> grind

/-- Whether a character can occur in a number. -/
def isJsonNumeric (c : Char) : Bool :=
  c.isDigit || c = '.' || c = 'e' || c = 'E' || c = '+' || c = '-'

/-- Whether the digits in front of the point are written as JSON wants them: at least one, and no zero
in front of others. -/
def isJsonWhole (digits : List Char) : Bool :=
  match digits with
  | [] => false
  | [_] => true
  | c :: _ => c ≠ '0'

/-- Whether what follows the digits in front of the point is in order: a point is followed by a digit. -/
def isJsonFraction : List Char → Bool
  | c :: d :: _ => c ≠ '.' || d.isDigit
  | [c] => c ≠ '.'
  | [] => true

/-- The whole numbers that JSON texts spell: those of 64 bits with or without a sign. -/
def isJsonInteger (n : Int) : Bool :=
  -0x8000000000000000 ≤ n && n < 0x10000000000000000

/-- Reads digits onto a number as long as it fits 64 bits. Gives the number, and the digits from the
first one on that does not fit. -/
def takeFitting (value : Nat) : List Char → Nat × List Char
  | [] => (value, [])
  | c :: digits =>
    let longer := 10 * value + digitValue c
    if longer < 0x10000000000000000 then takeFitting longer digits else (value, c :: digits)

/-- The double that JSON makes of digits in front of the point and behind it and an exponent. Digits
that do not fit are dropped; in front of the point each of them still counts for its place. -/
def jsonDouble? (negative : Bool) (whole places : List Char) (exponent : Int) : Option Double :=
  let (front, dropped) := takeFitting 0 whole
  let (digits, unread) := takeFitting front places
  (nearestQuotient? negative digits 1).bind fun x =>
    x.scale? (exponent + dropped.length - (places.length - unread.length))

/-- The number that a text spells in JSON. -/
def jsonNumber? (text : List Char) : Option Value :=
  let (negative, unsigned) := match text with
    | '-' :: unsigned => (true, unsigned)
    | unsigned => (false, unsigned)
  let whole := unsigned.takeWhile Char.isDigit
  let fraction := unsigned.dropWhile Char.isDigit
  let n : Int := if negative then -(ofDigits whole : Int) else ofDigits whole
  if !isJsonWhole whole || !isJsonFraction fraction then none
  else if fraction.isEmpty ∧ isJsonInteger n ∧ ¬(negative ∧ n = 0) then some (.int n)
  else
    let (places, rest) := match fraction with
      | '.' :: text => (text.takeWhile Char.isDigit, text.dropWhile Char.isDigit)
      | text => ([], text)
    (Decimal.readExponent? rest).bind fun exponent =>
      (jsonDouble? negative whole places exponent).map .float

/-! ## Values -/

/-- A reader of one value, for the parts of an array or object. -/
abbrev JsonReader := (text : List Char) → Option (Taken Value text)

/-- Takes the items of an array, of which there is at least one, and the closing bracket. -/
def takeJsonItems (item : JsonReader) (text : List Char) : Option (Taken (List Value) text) :=
  match item text with
  | none => none
  | some first =>
    have bound := first.shorter
    match skipped : skipJsonBlanks first.rest with
    | [] => none
    | c :: tail =>
      have closer : tail.length < text.length :=
        Nat.lt_trans (length_lt_of_skipJsonBlanks skipped) bound
      if c = ']' then some ⟨[first.value], tail, closer⟩
      else if c = ',' then
        (takeJsonItems item tail).map (·.widen (first.value :: ·) (Nat.le_of_lt closer))
      else none
termination_by text.length

/-- Takes the members of an object, of which there is at least one, and the closing bracket. -/
def takeJsonMembers (item : JsonReader) (text : List Char) :
    Option (Taken (List (String × Value)) text) :=
  match start : skipJsonBlanks text with
  | [] => none
  | c :: tail =>
    if c ≠ '"' then none
    else
      match named : readJsonString? tail with
      | none => none
      | some (name, rest) =>
        match colon : skipJsonBlanks rest with
        | [] => none
        | d :: rest' =>
          have bound : rest'.length < text.length :=
            Nat.lt_trans (length_lt_of_skipJsonBlanks colon)
              (Nat.lt_trans (length_lt_of_readJsonString? named)
                (length_lt_of_skipJsonBlanks start))
          if d ≠ ':' then none
          else
            match item rest' with
            | none => none
            | some value =>
              have closer := value.shorter
              match skipped : skipJsonBlanks value.rest with
              | [] => none
              | e :: rest =>
                have closest : rest.length < text.length :=
                  Nat.lt_trans (length_lt_of_skipJsonBlanks skipped) (Nat.lt_trans closer bound)
                let member := (String.ofList name, value.value)
                if e = '}' then some ⟨[member], rest, closest⟩
                else if e = ',' then
                  (takeJsonMembers item rest).map (·.widen (member :: ·) (Nat.le_of_lt closest))
                else none
termination_by text.length

/-- Takes a word that stands for a value. -/
def takeJsonWord (word : List Char) (value : Value) (text : List Char) :
    Option (Taken Value text) :=
  if h : word.isPrefixOf text ∧ 0 < word.length ∧ word.length ≤ text.length then
    some ⟨value, text.drop word.length, by rw [List.length_drop]; omega⟩
  else none

/-- Takes a value in which arrays and objects nest at most `depth` deep. -/
def takeJson (depth : Nat) (text : List Char) : Option (Taken Value text) :=
  match start : skipJsonBlanks text with
  | [] => none
  | c :: tail =>
    have bound : tail.length < text.length := length_lt_of_skipJsonBlanks start
    if c = '"' then
      match quoted : readJsonString? tail with
      | none => none
      | some (content, rest) =>
        some ⟨.string (String.ofList content), rest,
          Nat.lt_trans (length_lt_of_readJsonString? quoted) bound⟩
    else if c = '[' ∨ c = '{' then
      match depth with
      | 0 => none
      | depth + 1 =>
        match next : skipJsonBlanks tail with
        | [] => none
        | d :: rest =>
          have closer : rest.length < text.length :=
            Nat.lt_trans (length_lt_of_skipJsonBlanks next) bound
          if c = '[' then
            if d = ']' then some ⟨.array [], rest, closer⟩
            else (takeJsonItems (takeJson depth) tail).map (·.widen .array (Nat.le_of_lt bound))
          else
            if d = '}' then some ⟨.object [], rest, closer⟩
            else (takeJsonMembers (takeJson depth) tail).map (·.widen ofMembers (Nat.le_of_lt bound))
    else if c = '-' ∨ c.isDigit then
      match jsonNumber? ((c :: tail).takeWhile isJsonNumeric) with
      | none => none
      | some value =>
        some ⟨value, tail.dropWhile isJsonNumeric,
          Nat.lt_of_le_of_lt (List.dropWhile_sublist _).length_le bound⟩
    else
      have wide : (c :: tail).length ≤ text.length := bound
      ((takeJsonWord "null".toList .null (c :: tail)).or
        ((takeJsonWord "true".toList (.bool true) (c :: tail)).or
          (takeJsonWord "false".toList (.bool false) (c :: tail)))).map (·.widen id wide)
termination_by depth

/-- The value that a JSON text holds, if it nests at most `depth` deep. -/
def ofJson? (depth : Nat) (text : String) : Option Value :=
  match takeJson depth text.toList with
  | none => none
  | some taken => if (skipJsonBlanks taken.rest).isEmpty then some taken.value else none

end Phrasebook.Value
