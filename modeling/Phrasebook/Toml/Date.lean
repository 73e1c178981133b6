import Phrasebook.Number.Digits

/-!
# Dates and times of TOML

A date, a time of day, or both with an offset from universal time. `datetime?` reads one that stands in
a document by itself and gives its text as it is written when nothing is left to choice; the calendar
is checked. `isDateText` is the laxer rule for a date inside a string, where a day may end at hour 24.
-/

namespace Phrasebook.Toml

open Phrasebook.Number

/-! ## Parts -/

/-- Reads a number of exactly `count` digits. -/
def takeNumber? (count : Nat) (text : List Char) : Option (Nat × List Char) :=
  let digits := text.take count
  if digits.length = count ∧ digits.all Char.isDigit then some (ofDigits digits, text.drop count)
  else none

/-- Takes a given character away. -/
def takeChar? (c : Char) : List Char → Option (List Char)
  | [] => none
  | d :: text => if d = c then some text else none

theorem length_lt_of_takeChar? {c : Char} {text rest : List Char}
    (h : takeChar? c text = some rest) : rest.length < text.length := by
  unfold takeChar? at h
  grind

/-- The number of days in a month. -/
def daysInMonth (year month : Nat) : Nat :=
  if month = 2 then
    if year % 4 = 0 ∧ (year % 100 ≠ 0 ∨ year % 400 = 0) then 29 else 28
  else if month = 4 ∨ month = 6 ∨ month = 9 ∨ month = 11 then 30
  else 31

/-- Reads a date: year, month and day. -/
def readDate? (text : List Char) : Option (List Char × List Char) := do
  let (year, rest) ← takeNumber? 4 text
  let rest ← takeChar? '-' rest
  let (month, rest) ← takeNumber? 2 rest
  let rest ← takeChar? '-' rest
  let (day, rest) ← takeNumber? 2 rest
  if 1 ≤ month ∧ month ≤ 12 ∧ 1 ≤ day ∧ day ≤ daysInMonth year month then
    some (text.take 10, rest)
  else none

/-- Reads two numbers of two digits with a colon between them. -/
def takeClock? (text : List Char) : Option (Nat × Nat × List Char) := do
  let (hour, rest) ← takeNumber? 2 text
  let rest ← takeChar? ':' rest
  let (minute, rest) ← takeNumber? 2 rest
  return (hour, minute, rest)

/-- Reads hours, of which `lastHour` is the last, and minutes. -/
def readClock? (lastHour : Nat) (text : List Char) : Option (List Char × List Char) := do
  let (hour, minute, rest) ← takeClock? text
  if hour ≤ lastHour ∧ minute < 60 then some (text.take 5, rest) else none

/-- The digits of a part of a second, as they are written: nine at most, and none that are zero at the
end. -/
def placesText (places : List Char) : List Char :=
  let kept := ((places.take 9).reverse.dropWhile (· = '0')).reverse
  if kept.isEmpty then [] else '.' :: kept

/-- Reads a time of day: hours, minutes, seconds, and a part of a second if there is one. -/
def readTime? (lastHour : Nat) (text : List Char) : Option (List Char × List Char) := do
  let (clock, rest) ← readClock? lastHour text
  let rest ← takeChar? ':' rest
  let (second, behind) ← takeNumber? 2 rest
  let time := clock ++ ':' :: rest.take 2
  if 60 < second then none
  else
    match takeChar? '.' behind with
    | none => some (time, behind)
    | some fraction =>
      let places := fraction.takeWhile Char.isDigit
      if places.isEmpty then none
      else some (time ++ placesText places, fraction.dropWhile Char.isDigit)

/-! ## Dates in a document -/

/-- An offset from universal time, or nothing. Universal time itself is not behind. -/
def offset? (text : List Char) : Option (List Char) :=
  match text with
  | [] => some []
  | c :: rest =>
    if c = 'Z' ∨ c = 'z' then
      if rest.isEmpty then some ['Z'] else none
    else if c = '+' ∨ c = '-' then
      match readClock? 23 rest with
      | some (clock, []) => some (if clock = "00:00".toList then '+' :: clock else c :: clock)
      | _ => none
    else none

/-- A date, a time of day, or both with an offset if wanted, as it is written when nothing is left to
choice. Only the letter `T` divides the two here. -/
def datetime? (text : List Char) : Option (List Char) :=
  match readDate? text with
  | none =>
    match readTime? 23 text with
    | some (time, []) => some time
    | _ => none
  | some (date, []) => some date
  | some (date, c :: rest) =>
    if c = 'T' ∨ c = 't' then do
      let (time, rest) ← readTime? 23 rest
      let offset ← offset? rest
      return date ++ 'T' :: time ++ offset
    else none

/-- Whether a text is a date alone. -/
def isDate (text : List Char) : Bool :=
  match readDate? text with
  | some (_, []) => true
  | _ => false

/-! ## Dates in strings -/

/-- Whether a text is an offset of at most one day, or empty. -/
def isOffsetText (text : List Char) : Bool :=
  match text with
  | [] => true
  | c :: rest =>
    if c = 'Z' ∨ c = 'z' then rest.isEmpty
    else if c = '+' ∨ c = '-' then
      match takeClock? rest with
      | some (hours, minutes, []) => 60 * hours + minutes ≤ 60 * 24
      | _ => false
    else false

/-- Whether the text of a string is a date, a time of day, or both with an offset if wanted. A blank may
also divide the two. -/
def isDateText (text : List Char) : Bool :=
  match readDate? text with
  | none =>
    match readTime? 24 text with
    | some (_, []) => true
    | _ => false
  | some (_, []) => true
  | some (_, c :: rest) =>
    if c = 'T' ∨ c = 't' ∨ c = ' ' then
      match readTime? 24 rest with
      | some (_, rest) => isOffsetText rest
      | none => false
    else false

end Phrasebook.Toml
