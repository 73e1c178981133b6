import Phrasebook.Proofs.Value.Quotation

/-!
# Rules for reading values

The readers of values skip trivia first. The rules here say what they do where nothing is in front of a
value, an item or a member, and that there is no other way to read one.
-/

namespace Phrasebook.Value

open Phrasebook.Text

/-! ## Values -/

/-- The characters with which a value can begin. -/
def opensValue (c : Char) : Bool :=
  !(isBlank c || c = '#' || c = '/' || c = ':' || c = ',' || c = '}' || c = ']')

/-- Whether a value that begins with the character has an end of its own. -/
def closesItself (c : Char) : Bool :=
  c = '"' || c = '\'' || c = '{' || c = '['

/-- The character with which such a value ends. -/
def closing (c : Char) : Char :=
  if c = '{' then '}' else if c = '[' then ']' else c

/-- A text that is empty or begins with a character of `before`. -/
def Stops (before : Char → Bool) (rest : List Char) : Prop :=
  ∀ c ∈ rest.head?, before c = true

theorem stops_nil (before : Char → Bool) : Stops before [] := by
  intro c member
  cases member

theorem stops_cons {before : Char → Bool} {c : Char} (h : before c = true) (rest : List Char) :
    Stops before (c :: rest) := by
  rintro c ⟨⟩
  exact h

theorem Stops.mono {before after : Char → Bool} {rest : List Char}
    (le : ∀ c, before c = true → after c = true) (h : Stops before rest) : Stops after rest :=
  fun c member => le c (h c member)

theorem Stops.append {before : Char → Bool} {rest back : List Char} (h : Stops before rest)
    (h' : Stops before back) : Stops before (rest ++ back) := by
  cases rest with
  | nil => exact h'
  | cons c rest => exact h

/-- A value that begins with `c` may end in front of `rest`. -/
def MayEnd (inside : Bool) (c : Char) (rest : List Char) : Prop :=
  closesItself c = true ∨ Stops (endsBare inside) rest

/-- A value that begins with `c` goes on with `body`: up to the character with which it ends, or without
one that ends a bare value. -/
def Finished (inside : Bool) (c : Char) (body : List Char) : Prop :=
  (closesItself c = true ∧ body.getLast? = some (closing c)) ∨
    (closesItself c = false ∧ ∀ d ∈ c :: body, endsBare inside d = false)

theorem solid_of_opensValue {c : Char} (opens : opensValue c = true) (tail : List Char) :
    Solid (c :: tail) := by
  simp only [opensValue, Bool.not_eq_true', Bool.or_eq_false_iff, decide_eq_false_iff_not] at opens
  exact solid_cons tail opens.1.1.1.1.1.1 opens.1.1.1.1.1.2 opens.1.1.1.1.2

/-- Trivia in front of a value change nothing. -/
theorem Trivia.readElement_append {trivia : List Char} (h : Trivia trivia) (inside : Bool)
    (text : List Char) : readElement inside (trivia ++ text) = readElement inside text := by
  rw [readElement_eq, readElement_eq inside text, h.skipTrivia_append]

/-- The rule for a value with nothing in front of it. -/
theorem readElement_cons {c : Char} (opens : opensValue c = true) (inside : Bool)
    (tail : List Char) :
    readElement inside (c :: tail) =
      if c = '"' ∨ c = '\'' then
        match readQuoted c (c :: tail) tail with
        | .error fault => .error fault
        | .ok (content, rest) => .ok (.string (String.ofList content), rest)
      else if c = '{' then
        match readMembers (c :: tail) tail with
        | .error fault => .error fault
        | .ok (members, rest) => .ok (ofMembers members, rest)
      else if c = '[' then
        match readItems (c :: tail) tail with
        | .error fault => .error fault
        | .ok (items, rest) => .ok (.array items, rest)
      else .ok (readBare inside (c :: tail)) := by
  have expected : ¬ (c = '/' ∨ c = ':' ∨ c = ',' ∨ c = '}' ∨ c = ']') := by
    simp only [opensValue, Bool.not_eq_true', Bool.or_eq_false_iff, decide_eq_false_iff_not]
      at opens
    simp [opens]
  have rule := readElement_eq inside (c :: tail)
  rw [skipTrivia_of_solid (solid_of_opensValue opens tail)] at rule
  simp only [if_neg expected] at rule
  exact rule

/-- A bare value takes the characters in front of the first one that ends it. -/
theorem readBare_append {inside : Bool} {bare rest : List Char}
    (inBare : ∀ c ∈ bare, endsBare inside c = false)
    (ends : Stops (endsBare inside) rest) :
    readBare inside (bare ++ rest) = (bareValue (trim bare), rest) := by
  have stays : ∀ c ∈ bare, (!endsBare inside c) = true := fun c member => by
    rw [inBare c member]; rfl
  have front : rest.takeWhile (fun c => !endsBare inside c) = [] := by
    cases rest with
    | nil => rfl
    | cons d rest => simp [ends d rfl]
  have back : rest.dropWhile (fun c => !endsBare inside c) = rest := by
    cases rest with
    | nil => rfl
    | cons d rest => simp [ends d rfl]
  rw [readBare, List.takeWhile_append_of_pos stays, List.dropWhile_append_of_pos stays, front, back,
    List.append_nil]

/-- A value without quotes or brackets goes on up to what ends it. -/
theorem readElement_bare {inside : Bool} {c : Char} {tail rest : List Char}
    (opens : opensValue c = true) (bare : closesItself c = false)
    (inBare : ∀ d ∈ c :: tail, endsBare inside d = false) (ends : Stops (endsBare inside) rest) :
    readElement inside (c :: (tail ++ rest)) = .ok (bareValue (trim (c :: tail)), rest) := by
  simp only [closesItself, Bool.or_eq_false_iff, decide_eq_false_iff_not] at bare
  obtain ⟨⟨⟨noDouble, noSingle⟩, noBrace⟩, noBracket⟩ := bare
  have noQuote : ¬ (c = '"' ∨ c = '\'') := not_or.2 ⟨noDouble, noSingle⟩
  have read := readBare_append inBare ends
  rw [List.cons_append] at read
  rw [readElement_cons opens, if_neg noQuote, if_neg noBrace, if_neg noBracket, read]

/-- A line that begins with neither a quote nor a bracket is a bare value. -/
theorem readAll_bare {c : Char} {tail : List Char} (opens : opensValue c = true)
    (bare : closesItself c = false) (inLine : ∀ d ∈ c :: tail, isLineBreak d = false) :
    readAll (c :: tail) = .ok (bareValue (trim (c :: tail))) := by
  have inBare : ∀ d ∈ c :: tail, endsBare false d = false := fun d member => by
    simp [endsBare, inLine d member]
  have read := readElement_bare opens bare inBare (stops_nil (endsBare false))
  rw [List.append_nil] at read
  rw [readAll, read]
  rfl

/-- Every text divides where a bare value ends. -/
theorem exists_bare (inside : Bool) (text : List Char) :
    ∃ bare rest, text = bare ++ rest ∧ (∀ c ∈ bare, endsBare inside c = false) ∧
      Stops (endsBare inside) rest := by
  refine ⟨text.takeWhile fun c => !endsBare inside c, text.dropWhile fun c => !endsBare inside c,
    List.takeWhile_append_dropWhile.symm, ?_, ?_⟩
  · intro c member
    have stays := List.all_eq_true.1 (List.all_takeWhile (l := text)) c member
    simpa using stays
  · intro d member
    have stops := List.head?_dropWhile_not (fun c => !endsBare inside c) text
    rw [Option.mem_def.1 member] at stops
    simpa using stops

/-- A reader that finds a value has found a character with which a value can begin. -/
theorem opensValue_of_readElement {inside : Bool} {c : Char} {tail : List Char}
    {result : Value × List Char} (solid : Solid (c :: tail))
    (h : readElement inside (c :: tail) = .ok result) : opensValue c = true := by
  have blank : isBlank c = false := solid.isBlank_eq_false
  have hash : c ≠ '#' := by
    cases tail with
    | nil => exact solid.2
    | cons d tail => exact solid.2.1
  by_cases unexpected : c = '/' ∨ c = ':' ∨ c = ',' ∨ c = '}' ∨ c = ']'
  · rw [readElement_eq, skipTrivia_of_solid solid] at h
    rcases unexpected with rfl | rfl | rfl | rfl | rfl <;> simp at h
  · simp only [not_or] at unexpected
    simp [opensValue, blank, hash, unexpected]

theorem endsBare_of_opensValue {c : Char} (opens : opensValue c = true) (inside : Bool) :
    endsBare inside c = false := by
  simp only [opensValue, Bool.not_eq_true', Bool.or_eq_false_iff, decide_eq_false_iff_not] at opens
  have lineBreak : isLineBreak c = false := by
    cases ends : isLineBreak c with
    | false => rfl
    | true => simp [isBlank_of_isLineBreak ends] at opens
  simp [endsBare, lineBreak, opens]

/-- Outside arrays and objects, only a line break ends a bare value. -/
theorem endsBare_false : endsBare false = isLineBreak := by
  funext c
  simp [endsBare]

/-- Blanks of a line end no bare value. -/
theorem endsBare_of_isBlank {c : Char} (blank : isBlank c = true) (inLine : isLineBreak c = false)
    (inside : Bool) : endsBare inside c = false := by
  have others : c ∉ [',', '}', ']'] := notMem_of_isBlank blank (by simp [isBlank])
  simp only [List.mem_cons, List.not_mem_nil, or_false, not_or] at others
  simp [endsBare, inLine, others]

/-! ## Arrays and objects -/

theorem ne_nil_of_getLast? {taken : List Char} {c : Char} (h : taken.getLast? = some c) :
    taken ≠ [] := by
  rintro rfl
  cases h

theorem MayEnd.of_append {inside : Bool} {c : Char} {taken rest : List Char} (some : taken ≠ [])
    (mayEnd : MayEnd inside c (taken ++ rest)) (rest' : List Char) :
    MayEnd inside c (taken ++ rest') := by
  cases taken with
  | nil => exact absurd rfl some
  | cons d taken => exact mayEnd

theorem Solid.of_append {taken front rest : List Char} (some : taken ≠ []) (more : front ≠ [])
    (solid : Solid (taken ++ (front ++ rest))) (rest' : List Char) :
    Solid (taken ++ (front ++ rest')) := by
  match taken, front, some, more with
  | [_], _ :: _, _, _ => exact solid
  | _ :: _ :: _, _, _, _ => exact solid

section Containers

variable (opening : List Char)

theorem Trivia.readItems_append {trivia : List Char} (h : Trivia trivia) (text : List Char) :
    readItems opening (trivia ++ text) = readItems opening text := by
  rw [readItems_eq, readItems_eq opening text, h.skipTrivia_append]

theorem Trivia.readMembers_append {trivia : List Char} (h : Trivia trivia) (text : List Char) :
    readMembers opening (trivia ++ text) = readMembers opening text := by
  rw [readMembers_eq, readMembers_eq opening text, h.skipTrivia_append]

theorem readItems_close (rest : List Char) : readItems opening (']' :: rest) = .ok ([], rest) := by
  have solid : Solid (']' :: rest) := solid_cons rest (by decide) (by decide) (by decide)
  rw [readItems_eq, skipTrivia_of_solid solid]
  simp only [if_true]

theorem readItems_comma (tail : List Char) :
    readItems opening (',' :: tail) = readItems opening tail := by
  have solid : Solid (',' :: tail) := solid_cons tail (by decide) (by decide) (by decide)
  rw [readItems_eq, skipTrivia_of_solid solid]
  simp only [if_true, Char.reduceEq, if_false]

/-- An item: a value and the items behind it. -/
theorem readItems_item {c : Char} {tail rest rest' : List Char} {value : Value}
    {items : List Value} (opens : opensValue c = true)
    (isValue : readElement true (c :: tail) = .ok (value, rest))
    (later : readItems opening rest = .ok (items, rest')) :
    readItems opening (c :: tail) = .ok (value :: items, rest') := by
  have close : c ≠ ']' := by rintro rfl; exact absurd opens (by decide)
  have comma : c ≠ ',' := by rintro rfl; exact absurd opens (by decide)
  rw [readItems_eq, skipTrivia_of_solid (solid_of_opensValue opens tail)]
  simp only [if_neg close, if_neg comma, isValue, later]

/-- There is no other way to read an item. -/
theorem exists_item_of_readItems {c : Char} {tail rest : List Char} {found : List Value}
    (solid : Solid (c :: tail)) (close : c ≠ ']') (comma : c ≠ ',')
    (h : readItems opening (c :: tail) = .ok (found, rest)) :
    ∃ value behind items, readElement true (c :: tail) = .ok (value, behind) ∧
      readItems opening behind = .ok (items, rest) ∧ found = value :: items := by
  rw [readItems_eq, skipTrivia_of_solid solid] at h
  simp only [if_neg close, if_neg comma] at h
  cases read : readElement true (c :: tail) with
  | error fault => simp [read] at h
  | ok result =>
    obtain ⟨value, behind⟩ := result
    simp only [read] at h
    cases more : readItems opening behind with
    | error fault => simp [more] at h
    | ok result =>
      obtain ⟨items, rest'⟩ := result
      simp only [more] at h
      cases h
      exact ⟨value, behind, items, rfl, more, rfl⟩

theorem readMembers_close (rest : List Char) :
    readMembers opening ('}' :: rest) = .ok ([], rest) := by
  have solid : Solid ('}' :: rest) := solid_cons rest (by decide) (by decide) (by decide)
  rw [readMembers_eq, skipTrivia_of_solid solid]
  simp only [if_true]

theorem readMembers_comma (tail : List Char) :
    readMembers opening (',' :: tail) = readMembers opening tail := by
  have solid : Solid (',' :: tail) := solid_cons tail (by decide) (by decide) (by decide)
  rw [readMembers_eq, skipTrivia_of_solid solid]
  simp only [if_true, Char.reduceEq, if_false]

/-- A member: its name, a colon behind trivia, its value, and the members behind it. -/
theorem readMembers_member {named trivia text rest rest' : List Char} {name : List Char}
    {value : Value} {members : List (String × Value)}
    (solid : Solid (named ++ (trivia ++ ':' :: text))) (some : named ≠ [])
    (begins : ∀ c ∈ named.head?, c ≠ '}' ∧ c ≠ ',')
    (isName : readName (named ++ (trivia ++ ':' :: text)) = .ok (name, trivia ++ ':' :: text))
    (isTrivia : Trivia trivia) (isValue : readElement true text = .ok (value, rest))
    (later : readMembers opening rest = .ok (members, rest')) :
    readMembers opening (named ++ (trivia ++ ':' :: text)) =
      .ok ((String.ofList name, value) :: members, rest') := by
  cases named with
  | nil => exact absurd rfl some
  | cons c named =>
    obtain ⟨close, comma⟩ := begins c rfl
    have colon : Solid (':' :: text) := solid_cons text (by decide) (by decide) (by decide)
    rw [readMembers_eq, skipTrivia_of_solid solid, List.cons_append]
    rw [List.cons_append] at isName
    simp only [if_neg close, if_neg comma, isName, isTrivia.skipTrivia_append,
      skipTrivia_of_solid colon, if_true, isValue, later]

/-- There is no other way to read a member. -/
theorem exists_member_of_readMembers {c : Char} {tail rest : List Char}
    {found : List (String × Value)} (solid : Solid (c :: tail)) (close : c ≠ '}') (comma : c ≠ ',')
    (h : readMembers opening (c :: tail) = .ok (found, rest)) :
    ∃ name trivia text value behind members, Trivia trivia ∧
      readName (c :: tail) = .ok (name, trivia ++ ':' :: text) ∧
      readElement true text = .ok (value, behind) ∧
      readMembers opening behind = .ok (members, rest) ∧
      found = (String.ofList name, value) :: members := by
  rw [readMembers_eq, skipTrivia_of_solid solid] at h
  simp only [if_neg close, if_neg comma] at h
  cases named : readName (c :: tail) with
  | error fault => simp [named] at h
  | ok result =>
    obtain ⟨name, behind⟩ := result
    simp only [named] at h
    cases skips : skipTrivia behind with
    | error fault => simp [skips] at h
    | ok solid =>
      cases solid with
      | nil => simp [skips] at h
      | cons d text =>
        obtain ⟨trivia, isTrivia, rfl, -⟩ := trivia_of_skipTrivia skips
        simp only [skips] at h
        split at h
        · next colon =>
          subst colon
          cases read : readElement true text with
          | error fault => simp [read] at h
          | ok result =>
            obtain ⟨value, behind⟩ := result
            simp only [read] at h
            cases more : readMembers opening behind with
            | error fault => simp [more] at h
            | ok result =>
              obtain ⟨members, rest'⟩ := result
              simp only [more] at h
              cases h
              exact ⟨name, trivia, text, value, behind, members, isTrivia, rfl, read, more, rfl⟩
        · simp at h

/-- What closes or continues an array stands behind trivia. -/
theorem exists_solid_of_readItems {text : List Char} {result : List Value × List Char}
    (h : readItems opening text = .ok result) :
    ∃ trivia c tail, Trivia trivia ∧ Solid (c :: tail) ∧ text = trivia ++ c :: tail ∧
      readItems opening (c :: tail) = .ok result := by
  have skipped := h
  rw [readItems_eq] at skipped
  cases skips : skipTrivia text with
  | error fault => simp [skips] at skipped
  | ok solid =>
    cases solid with
    | nil => simp [skips] at skipped
    | cons c tail =>
      obtain ⟨trivia, isTrivia, rfl, solid⟩ := trivia_of_skipTrivia skips
      rw [isTrivia.readItems_append] at h
      exact ⟨trivia, c, tail, isTrivia, solid, rfl, h⟩

/-- What closes or continues an object stands behind trivia. -/
theorem exists_solid_of_readMembers {text : List Char}
    {result : List (String × Value) × List Char} (h : readMembers opening text = .ok result) :
    ∃ trivia c tail, Trivia trivia ∧ Solid (c :: tail) ∧ text = trivia ++ c :: tail ∧
      readMembers opening (c :: tail) = .ok result := by
  have skipped := h
  rw [readMembers_eq] at skipped
  cases skips : skipTrivia text with
  | error fault => simp [skips] at skipped
  | ok solid =>
    cases solid with
    | nil => simp [skips] at skipped
    | cons c tail =>
      obtain ⟨trivia, isTrivia, rfl, solid⟩ := trivia_of_skipTrivia skips
      rw [isTrivia.readMembers_append] at h
      exact ⟨trivia, c, tail, isTrivia, solid, rfl, h⟩

end Containers

end Phrasebook.Value
