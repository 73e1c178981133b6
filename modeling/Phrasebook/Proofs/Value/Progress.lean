import Phrasebook.Proofs.Rounds
import Phrasebook.Proofs.Value.Places

/-!
# Reading by rounds

The reader of values takes the entries of an array or an object one after another, until a bracket closes them.
`entriesRound` is one round of this, for both kinds, with the reader of an entry left open. A round that goes on
takes at least one character if an entry does (`consumes_of_entriesRound`), and the rounds come to what the
rules of the reader say (`settles_entriesRound`). `elementWithin` reads a value with a budget for the depth of
values in values and for the number of rounds at each depth; a budget above the length of the text is enough
for every text (`elementWithin_eq_some`).

`staysWithin_readElement` says the same of places: a value ends behind its beginning and inside the text, and
a fault is at a place between.
-/

namespace Phrasebook.Value

open Phrasebook.Text

/-! ## What is taken -/

/-- What is left of a text when at least one character is taken from its front. -/
structure Consumes (before after : List Char) : Prop where
  suffix : after <:+ before
  shorter : after.length < before.length

theorem consumes_cons (c : Char) (tail : List Char) : Consumes (c :: tail) tail :=
  ⟨List.suffix_cons c tail, Nat.lt_succ_self _⟩

theorem Consumes.of_suffix {before between after : List Char} (h : Consumes between after)
    (inBefore : between <:+ before) : Consumes before after :=
  ⟨h.suffix.trans inBefore, Nat.lt_of_lt_of_le h.shorter inBefore.length_le⟩

theorem Consumes.trans_suffix {before between after : List Char} (h : Consumes before between)
    (inBetween : after <:+ between) : Consumes before after :=
  ⟨inBetween.trans h.suffix, Nat.lt_of_le_of_lt inBetween.length_le h.shorter⟩

theorem consumes_of_readElement {inside : Bool} {text rest : List Char} {value : Value}
    (read : readElement inside text = .ok (value, rest)) : Consumes text rest :=
  ⟨suffix_of_readElement read, length_lt_of_readElement read⟩

/-- What reading from the place `start` of a text on comes to: a value that ends at a later place of the text,
or an error at a place from `start` to the end of the text. -/
def StaysWithin (text : List Char) (start : Nat) : Except Fault (Value × List Char) → Prop
  | .ok (_, rest) => ∃ stop, start < stop ∧ stop ≤ text.length ∧ rest = text.drop stop
  | .error fault =>
    start ≤ (fault.within text).offset ∧ (fault.within text).offset ≤ text.length ∧
      fault.remaining = text.drop (fault.within text).offset

theorem staysWithin_readElement (inside : Bool) {text : List Char} {start : Nat}
    (inText : start ≤ text.length) : StaysWithin text start (readElement inside (text.drop start)) := by
  have here : text.drop start <:+ text := List.drop_suffix start text
  cases read : readElement inside (text.drop start) with
  | ok result =>
    obtain ⟨value, rest⟩ := result
    have taken := consumes_of_readElement read
    have shorter := taken.shorter
    rw [List.length_drop] at shorter
    have isRest := List.suffix_iff_eq_drop.1 (taken.suffix.trans here)
    exact ⟨text.length - rest.length, by omega, Nat.sub_le _ _, isRest⟩
  | error fault =>
    have left := remaining_suffix_of_readElement read
    have bound := left.length_le
    rw [List.length_drop] at bound
    have isLeft := List.suffix_iff_eq_drop.1 (left.trans here)
    exact ⟨by simp only [Fault.within]; omega, Nat.sub_le _ _, isLeft⟩

/-! ## Entries of arrays and objects -/

/-- A reader of texts that may not come to an end. -/
abbrev Reads (α : Type) : Type :=
  List Char → Option (Except Fault (α × List Char))

/-- A reader takes at least one character for what it reads. -/
def Progress {α : Type} (read : Reads α) : Prop :=
  ∀ {text : List Char} {found : α} {rest : List Char}, read text = some (.ok (found, rest)) →
    Consumes text rest

theorem progress_readElement (inside : Bool) : Progress fun text => some (readElement inside text) :=
  fun read => consumes_of_readElement (Option.some.inj read)

/-- One round of reading the entries of an array or an object that began at `opening`, with what is left of the
text and the entries so far. -/
def entriesRound {α : Type} (closing : Char) (cause : SyntaxCause) (entry : Reads α) (opening : List Char)
    (state : List Char × List α) :
    Option (Round (List Char × List α) (Except Fault (List α × List Char))) :=
  match skipTrivia state.1 with
  | .error fault => some (.done (.error fault))
  | .ok [] => some (.done (.error ⟨cause, opening⟩))
  | .ok (c :: tail) =>
    if c = closing then some (.done (.ok (state.2, tail)))
    else if c = ',' then some (.next (tail, state.2))
    else
      (entry (c :: tail)).map fun
        | .error fault => .done (.error fault)
        | .ok (found, rest) => .next (rest, state.2 ++ [found])

/-- A reader takes entries by `item` one after another, up to the bracket that closes. -/
def ReadsEntries {α : Type} (closing : Char) (cause : SyntaxCause) (opening : List Char)
    (item : List Char → Except Fault (α × List Char))
    (read : List Char → Except Fault (List α × List Char)) : Prop :=
  ∀ text, read text =
    match skipTrivia text with
    | .error fault => .error fault
    | .ok [] => .error ⟨cause, opening⟩
    | .ok (c :: tail) =>
      if c = closing then .ok ([], tail)
      else if c = ',' then read tail
      else
        match item (c :: tail) with
        | .error fault => .error fault
        | .ok (first, rest) => (read rest).map fun (found, rest) => (first :: found, rest)

/-- Reads a member of an object, from its name on. -/
def member (element : Reads Value) : Reads (String × Value) := fun text =>
  match readName text with
  | .error fault => some (.error fault)
  | .ok (name, rest) =>
    match skipTrivia rest with
    | .error fault => some (.error fault)
    | .ok [] => some (.error ⟨.missingColon (String.ofList name), []⟩)
    | .ok (d :: rest) =>
      if d = ':' then
        (element rest).map fun
          | .error fault => .error fault
          | .ok (value, rest) => .ok ((String.ofList name, value), rest)
      else some (.error ⟨.missingColon (String.ofList name), rest⟩)

section Rounds

variable {α : Type} {closing : Char} {cause : SyntaxCause} {entry : Reads α} {opening : List Char}

/-- A round that goes on takes at least one character. -/
theorem consumes_of_entriesRound (takes : Progress entry)
    {state later : List Char × List α}
    (goes : entriesRound closing cause entry opening state = some (.next later)) :
    Consumes state.1 later.1 := by
  rw [entriesRound] at goes
  cases skipped : skipTrivia state.1 with
  | error fault => rw [skipped] at goes; cases goes
  | ok solid =>
    rw [skipped] at goes
    cases solid with
    | nil => cases goes
    | cons c tail =>
      have inText := suffix_of_skipTrivia skipped
      simp only at goes
      split at goes
      · cases goes
      · split at goes
        · cases goes
          exact (consumes_cons c tail).of_suffix inText
        · obtain ⟨answer, read, leads⟩ := Option.map_eq_some_iff.1 goes
          cases answer with
          | error fault => cases leads
          | ok result =>
            cases leads
            exact (takes read).of_suffix inText

/-- The rounds settle what a reader of entries comes to, if `entry` reads the same entries in the rest of the
text. -/
theorem settles_entriesRound {item : List Char → Except Fault (α × List Char)}
    {read : List Char → Except Fault (List α × List Char)}
    (rule : ReadsEntries closing cause opening item read)
    (takes : Progress fun text => some (item text))
    {bound : Nat} (agrees : ∀ text, text.length ≤ bound → entry text = some (item text))
    {state : List Char × List α} (within : state.1.length ≤ bound) :
    Settles (entriesRound closing cause entry opening) (fun state => state.1.length ≤ bound)
      (fun state => state.1.length)
      (fun state => (read state.1).map fun (found, rest) => (state.2 ++ found, rest)) state := by
  obtain ⟨text, entries⟩ := state
  cases skipped : skipTrivia text with
  | error fault =>
    refine .done ?_
    simp only [entriesRound, rule text, skipped]
    rfl
  | ok solid =>
    cases solid with
    | nil =>
      refine .done ?_
      simp only [entriesRound, rule text, skipped]
      rfl
    | cons c tail =>
      have inText := suffix_of_skipTrivia skipped
      by_cases closes : c = closing
      · refine .done ?_
        simp only [entriesRound, rule text, skipped, if_pos closes, Except.map, List.append_nil]
      · by_cases comma : c = ','
        · have taken := (consumes_cons c tail).of_suffix inText
          have goes : entriesRound closing cause entry opening (text, entries) =
              some (.next (tail, entries)) := by
            simp only [entriesRound, skipped, if_neg closes, if_pos comma]
          refine .next goes (Nat.le_trans (Nat.le_of_lt taken.shorter) within) taken.shorter ?_
          simp only [rule text, skipped, if_neg closes, if_pos comma]
        · have reads := agrees (c :: tail) (Nat.le_trans inText.length_le within)
          cases isItem : item (c :: tail) with
          | error fault =>
            refine .done ?_
            simp only [entriesRound, rule text, skipped, if_neg closes, if_neg comma, reads, isItem]
            rfl
          | ok result =>
            obtain ⟨first, rest⟩ := result
            have taken := (takes (congrArg some isItem)).of_suffix inText
            have goes : entriesRound closing cause entry opening (text, entries) =
                some (.next (rest, entries ++ [first])) := by
              simp only [entriesRound, skipped, if_neg closes, if_neg comma, reads, isItem,
                Option.map_some]
            refine .next goes (Nat.le_trans (Nat.le_of_lt taken.shorter) within) taken.shorter ?_
            simp only [rule text, skipped, if_neg closes, if_neg comma, isItem]
            cases read rest with
            | error fault => rfl
            | ok result => simp only [Except.map, List.append_assoc, List.singleton_append]

end Rounds

/-! ## Members -/

/-- Reads a member of an object, with the reader of values for its value. -/
def readMember (text : List Char) : Except Fault ((String × Value) × List Char) :=
  match readName text with
  | .error fault => .error fault
  | .ok (name, rest) =>
    match skipTrivia rest with
    | .error fault => .error fault
    | .ok [] => .error ⟨.missingColon (String.ofList name), []⟩
    | .ok (d :: rest) =>
      if d = ':' then
        match readElement true rest with
        | .error fault => .error fault
        | .ok (value, rest) => .ok ((String.ofList name, value), rest)
      else .error ⟨.missingColon (String.ofList name), rest⟩

theorem member_eq_some {element : Reads Value} {text : List Char}
    (agrees : ∀ shorter, shorter.length ≤ text.length →
      element shorter = some (readElement true shorter)) :
    member element text = some (readMember text) := by
  rw [member, readMember]
  cases named : readName text with
  | error fault => rfl
  | ok result =>
    obtain ⟨name, rest⟩ := result
    have behindName := suffix_of_readName named
    cases skipped : skipTrivia rest with
    | error fault => simp only [skipped]
    | ok solid =>
      cases solid with
      | nil => simp only [skipped]
      | cons d tail =>
        have behind := (List.suffix_cons d tail).trans ((suffix_of_skipTrivia skipped).trans behindName)
        by_cases colon : d = ':'
        · simp only [skipped, if_pos colon, agrees tail behind.length_le, Option.map_some]
        · simp only [skipped, if_neg colon]

/-- A member takes a name, a colon and what its value takes. -/
theorem progress_member {element : Reads Value} (takes : Progress element) :
    Progress (member element) := by
  intro text found rest read
  rw [member] at read
  cases named : readName text with
  | error fault => rw [named] at read; cases read
  | ok result =>
    obtain ⟨name, behindName⟩ := result
    rw [named] at read
    simp only at read
    cases skipped : skipTrivia behindName with
    | error fault => rw [skipped] at read; cases read
    | ok solid =>
      rw [skipped] at read
      cases solid with
      | nil => cases read
      | cons d tail =>
        have behind := (List.suffix_cons d tail).trans
          ((suffix_of_skipTrivia skipped).trans (suffix_of_readName named))
        simp only at read
        split at read
        · obtain ⟨answer, isAnswer, leads⟩ := Option.map_eq_some_iff.1 read
          cases answer with
          | error fault => cases leads
          | ok result =>
            cases leads
            exact (takes isAnswer).of_suffix behind
        · cases read

theorem progress_readMember : Progress fun text => some (readMember text) := by
  intro text found rest read
  have same : member (fun text => some (readElement true text)) text = some (readMember text) :=
    member_eq_some fun _ _ => rfl
  exact progress_member (progress_readElement true) (same.trans read)

theorem readsEntries_readItems (opening : List Char) :
    ReadsEntries ']' .unterminatedArray opening (readElement true) (readItems opening) := by
  intro text
  rw [readItems_eq]
  cases skipTrivia text with
  | error fault => rfl
  | ok solid =>
    cases solid with
    | nil => rfl
    | cons c tail =>
      dsimp only
      cases readElement true (c :: tail) with
      | error fault => rfl
      | ok result =>
        dsimp only
        cases readItems opening result.2 <;> rfl

theorem readsEntries_readMembers (opening : List Char) :
    ReadsEntries '}' .unterminatedObject opening readMember (readMembers opening) := by
  intro text
  rw [readMembers_eq]
  cases skipTrivia text with
  | error fault => rfl
  | ok solid =>
    cases solid with
    | nil => rfl
    | cons c tail =>
      simp only [readMember]
      cases readName (c :: tail) with
      | error fault => rfl
      | ok result =>
        obtain ⟨name, rest⟩ := result
        cases skipped : skipTrivia rest with
        | error fault => simp only [skipped]
        | ok solid =>
          cases solid with
          | nil => simp only [skipped]
          | cons d rest =>
            by_cases colon : d = ':'
            · simp only [skipped, if_pos colon]
              cases readElement true rest with
              | error fault => rfl
              | ok result =>
                dsimp only
                cases readMembers opening result.2 <;> rfl
            · simp only [skipped, if_neg colon]

/-! ## Values by rounds -/

section Enough

variable {bound limit : Nat} {element : Reads Value} {opening text : List Char}

theorem rounds_items
    (agrees : ∀ text, text.length ≤ bound → element text = some (readElement true text))
    (within : text.length ≤ bound) (enough : text.length < limit) :
    rounds (entriesRound ']' .unterminatedArray element opening) limit (text, []) =
      some (readItems opening text) := by
  rw [rounds_eq_some (fun _ within => settles_entriesRound (readsEntries_readItems opening)
    (progress_readElement true) agrees within) within enough]
  cases readItems opening text <;> rfl

theorem rounds_members
    (agrees : ∀ text, text.length ≤ bound → element text = some (readElement true text))
    (within : text.length ≤ bound) (enough : text.length < limit) :
    rounds (entriesRound '}' .unterminatedObject (member element) opening) limit (text, []) =
      some (readMembers opening text) := by
  have members : ∀ text, text.length ≤ bound → member element text = some (readMember text) :=
    fun text within => member_eq_some fun shorter le => agrees shorter (Nat.le_trans le within)
  rw [rounds_eq_some (fun _ within => settles_entriesRound (readsEntries_readMembers opening)
    progress_readMember members within) within enough]
  cases readMembers opening text <;> rfl

end Enough

/-- Reads a value with a budget: at most so many rounds for an array or an object, and one less in it. -/
def elementWithin : Nat → Bool → Reads Value
  | 0, _, _ => none
  | budget + 1, inside, text =>
    match skipTrivia text with
    | .error fault => some (.error fault)
    | .ok [] => some (.error ⟨.missingValue, []⟩)
    | .ok (c :: tail) =>
      if c = '"' ∨ c = '\'' then
        match readQuoted c (c :: tail) tail with
        | .error fault => some (.error fault)
        | .ok (content, rest) => some (.ok (.string (String.ofList content), rest))
      else if c = '{' then
        (rounds (entriesRound '}' .unterminatedObject (member (elementWithin budget true)) (c :: tail))
          budget (tail, [])).map fun
          | .error fault => .error fault
          | .ok (members, rest) => .ok (ofMembers members, rest)
      else if c = '[' then
        (rounds (entriesRound ']' .unterminatedArray (elementWithin budget true) (c :: tail))
          budget (tail, [])).map fun
          | .error fault => .error fault
          | .ok (items, rest) => .ok (.array items, rest)
      else if c = '/' ∨ c = ':' ∨ c = ',' ∨ c = '}' ∨ c = ']' then
        some (.error ⟨.unexpectedCharacter c, c :: tail⟩)
      else some (.ok (readBare inside (c :: tail)))

/-- A budget above the length of a text is enough for it, well-formed or not. -/
theorem elementWithin_eq_some {budget : Nat} {inside : Bool} {text : List Char}
    (enough : text.length < budget) :
    elementWithin budget inside text = some (readElement inside text) := by
  induction budget generalizing inside text with
  | zero => exact absurd enough (Nat.not_lt_zero _)
  | succ budget ih =>
    rw [elementWithin, readElement_eq]
    cases skipped : skipTrivia text with
    | error fault => rfl
    | ok solid =>
      cases solid with
      | nil => rfl
      | cons c tail =>
        have shorter : tail.length < budget := by
          have bound := (suffix_of_skipTrivia skipped).length_le
          rw [List.length_cons] at bound
          omega
        have agrees : ∀ text : List Char, text.length ≤ tail.length →
            elementWithin budget true text = some (readElement true text) :=
          fun text le => ih (Nat.lt_of_le_of_lt le shorter)
        simp only [rounds_items agrees (Nat.le_refl _) shorter,
          rounds_members agrees (Nat.le_refl _) shorter, Option.map_some]
        split
        · cases readQuoted c (c :: tail) tail <;> rfl
        · split
          · cases readMembers (c :: tail) tail <;> rfl
          · split
            · cases readItems (c :: tail) tail <;> rfl
            · split <;> rfl

/-- `elementLength` with a budget. -/
def lengthWithin (budget : Nat) (text : String) : Option (Except SyntaxError Nat) :=
  (elementWithin budget false text.toList).map fun
    | .error fault => .error (fault.within text.toList)
    | .ok (_, rest) => .ok (text.toList.length - rest.length)

/-- `read` with a budget. -/
def readWithin (budget : Nat) (text : String) : Option (Except SyntaxError Value) :=
  (elementWithin budget false text.toList).map fun
    | .error fault => .error (fault.within text.toList)
    | .ok (value, rest) =>
      match skipTrivia rest with
      | .error fault => .error (fault.within text.toList)
      | .ok [] => .ok value
      | .ok (c :: tail) => .error (Fault.within ⟨.trailingCharacter c, c :: tail⟩ text.toList)

theorem lengthWithin_eq_some {budget : Nat} {text : String} (enough : text.length < budget) :
    lengthWithin budget text = some (elementLength text) := by
  rw [← String.length_toList] at enough
  rw [lengthWithin, elementWithin_eq_some enough, elementLength]
  cases readElement false text.toList <;> rfl

theorem readWithin_eq_some {budget : Nat} {text : String} (enough : text.length < budget) :
    readWithin budget text = some (read text) := by
  rw [← String.length_toList] at enough
  rw [readWithin, elementWithin_eq_some enough, read, readAll]
  cases readElement false text.toList with
  | error fault => rfl
  | ok result =>
    simp only [Option.map_some]
    cases skipTrivia result.2 with
    | error fault => rfl
    | ok solid => cases solid <;> rfl

end Phrasebook.Value
