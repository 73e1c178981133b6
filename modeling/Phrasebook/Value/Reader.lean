import Phrasebook.Value.Trivia
import Phrasebook.Value.Bare

/-!
# Reading a value

The relaxed notation in which calls spell values: quotations in either quote, arrays and objects with
optional commas, bare words, and comments wherever blanks may stand. `readElement` reads the value in
front of a text and gives the text behind it, `elementLength` measures that value, and `read` expects
the value to be all there is.

The reader takes at least one character for a value, which is why it ends; the bound is part of what
it returns (`Taken`). `readElement_eq`, `readItems_eq` and `readMembers_eq` state its rules.
-/

namespace Phrasebook.Value

open Phrasebook.Text

/-- What a reader took from the front of a text and the shorter text that is left. -/
structure Taken (α : Type) (text : List Char) where
  value : α
  rest : List Char
  shorter : rest.length < text.length

/-- The result without the bound. -/
def Taken.pair {α : Type} {text : List Char} (t : Taken α text) : α × List Char :=
  (t.value, t.rest)

/-- What was taken from a text was taken from any text that is at least as long. -/
def Taken.widen {α β : Type} {text wider : List Char} (t : Taken α text) (f : α → β)
    (h : text.length ≤ wider.length) : Taken β wider :=
  ⟨f t.value, t.rest, Nat.lt_of_lt_of_le t.shorter h⟩

mutual

/-- Takes a value, after blanks and comments. -/
def takeElement (inside : Bool) (text : List Char) : Except Fault (Taken Value text) :=
  match skipped : skipTrivia text with
  | .error fault => .error fault
  | .ok [] => .error ⟨.missingValue, []⟩
  | .ok (c :: tail) =>
    have bound : tail.length < text.length := length_le_of_skipTrivia skipped
    if c = '"' ∨ c = '\'' then
      match quoted : readQuoted c (c :: tail) tail with
      | .error fault => .error fault
      | .ok (content, rest) =>
        .ok ⟨.string (String.ofList content), rest,
          Nat.lt_trans (length_lt_of_readQuoted quoted) bound⟩
    else if c = '{' then
      match takeMembers (c :: tail) tail with
      | .error fault => .error fault
      | .ok members => .ok (members.widen ofMembers (Nat.le_of_lt bound))
    else if c = '[' then
      match takeItems (c :: tail) tail with
      | .error fault => .error fault
      | .ok items => .ok (items.widen .array (Nat.le_of_lt bound))
    else if unexpected : c = '/' ∨ c = ':' ∨ c = ',' ∨ c = '}' ∨ c = ']' then
      .error ⟨.unexpectedCharacter c, c :: tail⟩
    else
      have belongs : endsBare inside c = false := by
        have blank := isBlank_eq_false_of_skipTrivia skipped
        have := mt (@isBlank_of_isLineBreak c) (by simp [blank])
        simp only [not_or] at unexpected
        simp_all [endsBare]
      .ok ⟨(readBare inside (c :: tail)).1, (readBare inside (c :: tail)).2,
        Nat.lt_of_lt_of_le (length_lt_of_readBare belongs) bound⟩
termination_by 2 * text.length

/-- Takes the items of an array up to its closing bracket. The array began at `opening`. -/
def takeItems (opening text : List Char) : Except Fault (Taken (List Value) text) :=
  match skipped : skipTrivia text with
  | .error fault => .error fault
  | .ok [] => .error ⟨.unterminatedArray, opening⟩
  | .ok (c :: tail) =>
    have bound : tail.length < text.length := length_le_of_skipTrivia skipped
    if c = ']' then .ok ⟨[], tail, bound⟩
    else if c = ',' then
      match takeItems opening tail with
      | .error fault => .error fault
      | .ok items => .ok (items.widen id (Nat.le_of_lt bound))
    else
      match takeElement true (c :: tail) with
      | .error fault => .error fault
      | .ok first =>
        have closer : first.rest.length < text.length :=
          Nat.lt_of_lt_of_le first.shorter bound
        match takeItems opening first.rest with
        | .error fault => .error fault
        | .ok items => .ok (items.widen (first.value :: ·) (Nat.le_of_lt closer))
termination_by 2 * text.length + 1

/-- Takes the members of an object up to its closing bracket. The object began at `opening`. -/
def takeMembers (opening text : List Char) : Except Fault (Taken (List (String × Value)) text) :=
  match skipped : skipTrivia text with
  | .error fault => .error fault
  | .ok [] => .error ⟨.unterminatedObject, opening⟩
  | .ok (c :: tail) =>
    have bound : tail.length < text.length := length_le_of_skipTrivia skipped
    if c = '}' then .ok ⟨[], tail, bound⟩
    else if c = ',' then
      match takeMembers opening tail with
      | .error fault => .error fault
      | .ok members => .ok (members.widen id (Nat.le_of_lt bound))
    else
      match named : readName (c :: tail) with
      | .error fault => .error fault
      | .ok (name, rest) =>
        match colon : skipTrivia rest with
        | .error fault => .error fault
        | .ok [] => .error ⟨.missingColon (String.ofList name), []⟩
        | .ok (d :: rest) =>
          have closer : rest.length < text.length := by
            have := length_le_of_readName named
            have := length_le_of_skipTrivia colon
            simp at *
            omega
          if d = ':' then
            match takeElement true rest with
            | .error fault => .error fault
            | .ok value =>
              have closest : value.rest.length < text.length := Nat.lt_trans value.shorter closer
              match takeMembers opening value.rest with
              | .error fault => .error fault
              | .ok members =>
                .ok (members.widen ((String.ofList name, value.value) :: ·)
                  (Nat.le_of_lt closest))
          else .error ⟨.missingColon (String.ofList name), rest⟩
termination_by 2 * text.length + 1

end

/-! ## Readers without the bound -/

/-- Reads the value in front of a text, and gives it with the text behind it. Inside an array or an
object a bare value also ends at a comma and at a closing bracket. -/
def readElement (inside : Bool) (text : List Char) : Except Fault (Value × List Char) :=
  (takeElement inside text).map Taken.pair

/-- Reads the items of an array up to its closing bracket. -/
def readItems (opening text : List Char) : Except Fault (List Value × List Char) :=
  (takeItems opening text).map Taken.pair

/-- Reads the members of an object, as they were written, up to its closing bracket. -/
def readMembers (opening text : List Char) :
    Except Fault (List (String × Value) × List Char) :=
  (takeMembers opening text).map Taken.pair

/-- The rule for a value. -/
theorem readElement_eq (inside : Bool) (text : List Char) :
    readElement inside text =
      match skipTrivia text with
      | .error fault => .error fault
      | .ok [] => .error ⟨.missingValue, []⟩
      | .ok (c :: tail) =>
        if c = '"' ∨ c = '\'' then
          match readQuoted c (c :: tail) tail with
          | .error fault => .error fault
          | .ok (content, rest) => .ok (.string (String.ofList content), rest)
        else if c = '{' then
          match readMembers (c :: tail) tail with
          | .error fault => .error fault
          | .ok (members, rest) => .ok (ofMembers members, rest)
        else if c = '[' then
          match readItems (c :: tail) tail with
          | .error fault => .error fault
          | .ok (items, rest) => .ok (.array items, rest)
        else if c = '/' ∨ c = ':' ∨ c = ',' ∨ c = '}' ∨ c = ']' then
          .error ⟨.unexpectedCharacter c, c :: tail⟩
        else .ok (readBare inside (c :: tail)) := by
  unfold readElement readItems readMembers
  rw [takeElement]
  split
  · next h => simp [h, Except.map]
  · next h => simp [h, Except.map]
  · next c tail h =>
    simp only [h]
    split
    · split
      · next q => simp [Except.map, q]
      · next q => simp [Except.map, q, Taken.pair]
    · split
      · cases takeMembers (c :: tail) tail <;> rfl
      · split
        · cases takeItems (c :: tail) tail <;> rfl
        · split <;> rfl

/-- The rule for the items of an array. -/
theorem readItems_eq (opening text : List Char) :
    readItems opening text =
      match skipTrivia text with
      | .error fault => .error fault
      | .ok [] => .error ⟨.unterminatedArray, opening⟩
      | .ok (c :: tail) =>
        if c = ']' then .ok ([], tail)
        else if c = ',' then readItems opening tail
        else
          match readElement true (c :: tail) with
          | .error fault => .error fault
          | .ok (first, rest) =>
            match readItems opening rest with
            | .error fault => .error fault
            | .ok (items, rest) => .ok (first :: items, rest) := by
  unfold readItems
  rw [takeItems]
  split
  · next h => simp [h, Except.map]
  · next h => simp [h, Except.map]
  · next c tail h =>
    simp only [h, readElement]
    split
    · rfl
    · split
      · cases takeItems opening tail <;> rfl
      · cases takeElement true (c :: tail) with
        | error fault => rfl
        | ok first =>
          simp only [Except.map, Taken.pair]
          cases takeItems opening first.rest <;> rfl

/-- The rule for the members of an object. -/
theorem readMembers_eq (opening text : List Char) :
    readMembers opening text =
      match skipTrivia text with
      | .error fault => .error fault
      | .ok [] => .error ⟨.unterminatedObject, opening⟩
      | .ok (c :: tail) =>
        if c = '}' then .ok ([], tail)
        else if c = ',' then readMembers opening tail
        else
          match readName (c :: tail) with
          | .error fault => .error fault
          | .ok (name, rest) =>
            match skipTrivia rest with
            | .error fault => .error fault
            | .ok [] => .error ⟨.missingColon (String.ofList name), []⟩
            | .ok (d :: rest) =>
              if d = ':' then
                match readElement true rest with
                | .error fault => .error fault
                | .ok (value, rest) =>
                  match readMembers opening rest with
                  | .error fault => .error fault
                  | .ok (members, rest) => .ok ((String.ofList name, value) :: members, rest)
              else .error ⟨.missingColon (String.ofList name), rest⟩ := by
  unfold readMembers
  rw [takeMembers]
  split
  · next h => simp [h, Except.map]
  · next h => simp [h, Except.map]
  · next c tail h =>
    simp only [h, readElement]
    split
    · rfl
    · split
      · cases takeMembers opening tail <;> rfl
      · split
        · next n => simp [n, Except.map]
        · next n =>
          simp only [n]
          split
          · next k => simp [k, Except.map]
          · next k => simp [k, Except.map]
          · next d rest k =>
            simp only [k]
            split
            · cases takeElement true rest with
              | error fault => rfl
              | ok value =>
                simp only [Except.map, Taken.pair]
                cases takeMembers opening value.rest <;> rfl
            · rfl

/-- A value takes at least one character. -/
theorem length_lt_of_readElement {inside : Bool} {text : List Char} {result : Value × List Char}
    (h : readElement inside text = .ok result) : result.2.length < text.length := by
  unfold readElement at h
  cases taken : takeElement inside text with
  | error fault => simp [taken, Except.map] at h
  | ok element =>
    simp only [taken, Except.map, Except.ok.injEq] at h
    rw [← h]
    exact element.shorter

/-! ## Whole texts -/

/-- The number of characters that the value in front of a text takes, with the blanks and comments in
front of it. -/
def elementLength (text : String) : Except SyntaxError Nat :=
  match readElement false text.toList with
  | .error fault => .error (fault.within text.toList)
  | .ok (_, rest) => .ok (text.toList.length - rest.length)

/-- Reads a text that holds one value, with blanks and comments around it. -/
def readAll (text : List Char) : Except Fault Value :=
  match readElement false text with
  | .error fault => .error fault
  | .ok (value, rest) =>
    match skipTrivia rest with
    | .error fault => .error fault
    | .ok [] => .ok value
    | .ok (c :: tail) => .error ⟨.trailingCharacter c, c :: tail⟩

/-- The value that a text spells. -/
def read (text : String) : Except SyntaxError Value :=
  (readAll text.toList).mapError (·.within text.toList)

end Phrasebook.Value
