import Phrasebook.Proofs.Value.BareSpelling
import Phrasebook.Proofs.Value.TextSpelling

/-!
# Spellings of values

A value has many spellings: either quote or none, escapes, commas or blanks between items, and comments.
`Spells` describes them, and `read` reads every one of them as the value it spells (`read_of_spells`). What
may stand between two values depends on the first one: a bare value is ended by a line break, a comma or
the closing bracket, but neither by blanks nor by a comment (`read_blank_between_words`).
-/

namespace Phrasebook.Value

open Phrasebook.Text Phrasebook.Number

/-! ## What stands between values -/

/-- Blanks, complete comments and commas. -/
inductive Filler : List Char → Prop
  | nil : Filler []
  | comma {rest : List Char} : Filler rest → Filler (',' :: rest)
  | trivia {front rest : List Char} : Trivia front → Filler rest → Filler (front ++ rest)

theorem Filler.readItems_append {gap : List Char} (h : Filler gap) (opening text : List Char) :
    readItems opening (gap ++ text) = readItems opening text := by
  induction h with
  | nil => rfl
  | comma _ ih => rw [List.cons_append, readItems_comma, ih]
  | trivia isTrivia _ ih => rw [List.append_assoc, isTrivia.readItems_append, ih]

theorem Filler.readMembers_append {gap : List Char} (h : Filler gap) (opening text : List Char) :
    readMembers opening (gap ++ text) = readMembers opening text := by
  induction h with
  | nil => rfl
  | comma _ ih => rw [List.cons_append, readMembers_comma, ih]
  | trivia isTrivia _ ih => rw [List.append_assoc, isTrivia.readMembers_append, ih]

/-- A value that is written so ends in front of the rest: by itself, or behind blanks of its line in front
of a character that ends bare values, or of nothing. -/
def EndsBefore (inside : Bool) (written rest : List Char) : Prop :=
  ∃ blanks more, rest = blanks ++ more ∧
    (∀ c ∈ blanks, isBlank c = true ∧ isLineBreak c = false) ∧
    ∀ c ∈ written.head?, MayEnd inside c more

theorem EndsBefore.append {written rest : List Char} (h : EndsBefore true written rest)
    {closing : Char} (ends : endsBare true closing = true) (back : List Char) :
    EndsBefore true written (rest ++ closing :: back) := by
  obtain ⟨blanks, more, rfl, inLine, mayEnd⟩ := h
  refine ⟨blanks, more ++ closing :: back, List.append_assoc _ _ _, inLine, fun c member => ?_⟩
  exact (mayEnd c member).imp_right fun stops => stops.append (stops_cons ends back)

/-! ## Names -/

/-- Names that need no quotes. -/
structure BareName (name : List Char) : Prop where
  nonempty : name ≠ []
  inName : ∀ c ∈ name, isLineBreak c = false ∧ c ∉ [':', '{', '}', '[', ']', ',', '\\']
  solid : Solid name
  begins : ∀ c ∈ name.head?, c ≠ '"' ∧ c ≠ '\''
  ends : ∀ c ∈ name.getLast?, isBlank c = false

/-- Spellings of a name, with what stands between it and the colon. -/
inductive SpellsName : List Char → List Char → Prop
  | quotation {quote : Char} {written content gap : List Char} :
    quote = '"' ∨ quote = '\'' → SpellsText quote written content → Trivia gap →
    SpellsName (quote :: (written ++ quote :: gap)) content
  | bare {name blanks : List Char} :
    BareName name → (∀ c ∈ blanks, isBlank c = true ∧ isLineBreak c = false) →
    SpellsName (name ++ blanks) name

theorem readNameChars_append {name : List Char}
    (h : ∀ c ∈ name, isLineBreak c = false ∧ c ∉ [':', '{', '}', '[', ']', ',', '\\'])
    (text : List Char) : readNameChars (name ++ ':' :: text) = .ok (name, ':' :: text) := by
  induction name with
  | nil => rw [List.nil_append, readNameChars_cons, if_pos rfl]
  | cons c name ih =>
    obtain ⟨⟨stays, others⟩, later⟩ := List.forall_mem_cons.1 h
    simp only [List.mem_cons, List.not_mem_nil, or_false, not_or] at others
    have belongs : breaksName c = false := by simp [breaksName, stays, others]
    rw [List.cons_append, readNameChars_cons, if_neg others.1, if_neg (by simp [belongs]),
      if_neg others.2.2.2.2.2.2, ih later]

/-- What the reader of members has to know of a name, with a gap between it and the colon. -/
structure ReadsName (named gap name : List Char) : Prop where
  nonempty : named ≠ []
  isTrivia : Trivia gap
  begins : ∀ c ∈ named.head?, c ≠ '}' ∧ c ≠ ','
  solid : ∀ text, Solid (named ++ (gap ++ ':' :: text))
  read : ∀ text, readName (named ++ (gap ++ ':' :: text)) = .ok (name, gap ++ ':' :: text)

theorem BareName.readsName {name blanks : List Char} (h : BareName name)
    (inLine : ∀ c ∈ blanks, isBlank c = true ∧ isLineBreak c = false) :
    ReadsName (name ++ blanks) [] name := by
  obtain ⟨some, inName, isSolid, begins, ends⟩ := h
  have blank : ∀ c ∈ blanks, isBlank c = true := fun c member => (inLine c member).1
  have chars : ∀ c ∈ name ++ blanks,
      isLineBreak c = false ∧ c ∉ [':', '{', '}', '[', ']', ',', '\\'] :=
    List.forall_mem_append.2 ⟨inName, fun c member =>
      ⟨(inLine c member).2, notMem_of_isBlank (blank c member) (by simp [isBlank])⟩⟩
  have trimmed : trimEnd (name ++ blanks) = name := by
    rw [trimEnd_append blank, trimEnd_of_getLast? ends]
  obtain ⟨c, tail, rfl⟩ := List.exists_cons_of_ne_nil some
  have noQuote : ¬ (c = '"' ∨ c = '\'') := by
    simpa only [not_or] using begins c rfl
  refine ⟨by simp, .nil, ?_, fun text => ?_, fun text => ?_⟩
  · rintro d ⟨⟩
    obtain ⟨-, others⟩ := inName c List.mem_cons_self
    simp only [List.mem_cons, List.not_mem_nil, or_false, not_or] at others
    exact ⟨others.2.2.1, others.2.2.2.2.2.1⟩
  · rw [List.nil_append, List.append_assoc]
    refine isSolid.append fun d member => ?_
    cases blanks with
    | nil =>
      cases member
      decide
    | cons e blanks =>
      cases member
      have others : d ∉ ['/', '*'] :=
        notMem_of_isBlank (blank d List.mem_cons_self) (by simp [isBlank])
      simpa using others
  · rw [List.nil_append]
    have read := readNameChars_append chars text
    rw [List.cons_append, List.cons_append] at read
    rw [List.cons_append, List.cons_append, readName, if_neg noQuote, read]
    simp only [← List.cons_append, trimmed]
    rfl

theorem SpellsName.exists_readsName {written name : List Char} (h : SpellsName written name) :
    ∃ named gap, written = named ++ gap ∧ ReadsName named gap name := by
  cases h with
  | @quotation quote written content gap quotes spells isTrivia =>
    have own : isBlank quote = false ∧ quote ≠ '#' ∧ quote ≠ '/' ∧ quote ≠ '}' ∧ quote ≠ ',' := by
      rcases quotes with rfl | rfl <;> decide
    obtain ⟨stays, noHash, noSlash, others⟩ := own
    refine ⟨quote :: (written ++ [quote]), gap, by simp, by simp, isTrivia, ?_, fun text => ?_,
      fun text => ?_⟩
    · rintro c ⟨⟩
      exact others
    · exact solid_cons _ stays noHash noSlash
    · rw [List.cons_append, readName, if_pos quotes, List.append_assoc, List.singleton_append]
      exact spells.readQuoted_append quotes _ _
  | @bare _ blanks isName inLine =>
    exact ⟨name ++ blanks, [], (List.append_nil _).symm, isName.readsName inLine⟩

/-! ## Values -/

mutual

/-- Spellings of a value. `Apart` says what may stand behind a value in an array or object. -/
inductive Spells (Apart : List Char → List Char → Prop) : List Char → Value → Prop
  | quotation {quote : Char} {written content : List Char} :
    quote = '"' ∨ quote = '\'' → SpellsText quote written content →
    Spells Apart (quote :: (written ++ [quote])) (.string (String.ofList content))
  | bare {written : List Char} {value : Value} :
    SpellsBare written value → Spells Apart written value
  | array {written : List Char} {items : List Value} :
    SpellsItems Apart written items → Spells Apart ('[' :: (written ++ [']'])) (.array items)
  | object {written : List Char} {members : List (String × Value)} :
    SpellsMembers Apart written members →
    Spells Apart ('{' :: (written ++ ['}'])) (ofMembers members)

/-- Spellings of the items of an array. -/
inductive SpellsItems (Apart : List Char → List Char → Prop) : List Char → List Value → Prop
  | nil {gap : List Char} : Filler gap → SpellsItems Apart gap []
  | cons {gap written more : List Char} {value : Value} {items : List Value} :
    Filler gap → Spells Apart written value → Apart written more → SpellsItems Apart more items →
    SpellsItems Apart (gap ++ (written ++ more)) (value :: items)

/-- Spellings of the members of an object. -/
inductive SpellsMembers (Apart : List Char → List Char → Prop) :
    List Char → List (String × Value) → Prop
  | nil {gap : List Char} : Filler gap → SpellsMembers Apart gap []
  | cons {gap named inner written more name : List Char} {value : Value}
    {members : List (String × Value)} :
    Filler gap → SpellsName named name → Trivia inner → Spells Apart written value →
    Apart written more → SpellsMembers Apart more members →
    SpellsMembers Apart (gap ++ (named ++ ':' :: (inner ++ (written ++ more))))
      ((String.ofList name, value) :: members)

end

theorem Spells.exists_opensValue {Apart : List Char → List Char → Prop} {written : List Char}
    {value : Value} (h : Spells Apart written value) :
    ∃ c tail, written = c :: tail ∧ opensValue c = true := by
  cases h with
  | quotation quotes _ =>
    refine ⟨_, _, rfl, ?_⟩
    rcases quotes with rfl | rfl <;> decide
  | bare bare =>
    obtain ⟨c, tail, equal, opens, -⟩ := bare.readsBare.begins
    exact ⟨c, tail, equal, opens⟩
  | array _ => exact ⟨_, _, rfl, by decide⟩
  | object _ => exact ⟨_, _, rfl, by decide⟩

mutual

/-- A spelling is read as its value, in front of a text that lets it end, with blanks behind it at most. -/
theorem Spells.readElement_append {written : List Char} {value : Value}
    (h : Spells (EndsBefore true) written value) {inside : Bool} {rest : List Char}
    (ends : EndsBefore inside written rest) :
    ∃ gap more, Trivia gap ∧ rest = gap ++ more ∧
      readElement inside (written ++ rest) = .ok (value, more) := by
  match h with
  | @Spells.quotation _ quote _ _ quotes spells =>
    have opens : opensValue quote = true := by rcases quotes with rfl | rfl <;> decide
    refine ⟨[], rest, .nil, rfl, ?_⟩
    rw [List.cons_append, List.append_assoc, List.singleton_append, readElement_cons opens,
      if_pos quotes, spells.readQuoted_append quotes]
  | .bare bare =>
    obtain ⟨c, tail, equal, -, open'⟩ := bare.readsBare.begins
    obtain ⟨blanks, more, rfl, inLine, mayEnd⟩ := ends
    have stops : Stops (endsBare inside) more := by
      refine (mayEnd c (by rw [equal]; rfl)).resolve_left ?_
      simp [open']
    refine ⟨blanks, more, trivia_of_isBlank fun c member => (inLine c member).1, rfl, ?_⟩
    refine bare.readElement_append (fun c member => ?_) stops
    exact ⟨(inLine c member).1, endsBare_of_isBlank (inLine c member).1 (inLine c member).2 inside⟩
  | .array items =>
    refine ⟨[], rest, .nil, rfl, ?_⟩
    rw [List.cons_append, List.append_assoc, List.singleton_append, readElement_cons (by decide),
      if_neg (by decide), if_neg (by decide), if_pos rfl, items.readItems_append]
  | .object members =>
    refine ⟨[], rest, .nil, rfl, ?_⟩
    rw [List.cons_append, List.append_assoc, List.singleton_append, readElement_cons (by decide),
      if_neg (by decide), if_pos rfl, members.readMembers_append]

theorem SpellsItems.readItems_append {written : List Char} {items : List Value}
    (h : SpellsItems (EndsBefore true) written items) (opening rest : List Char) :
    readItems opening (written ++ ']' :: rest) = .ok (items, rest) := by
  match h with
  | .nil isFiller => rw [isFiller.readItems_append, readItems_close]
  | .cons isFiller first apart later =>
    have behind := later.readItems_append opening rest
    obtain ⟨c, tail, equal, opens⟩ := first.exists_opensValue
    have ends : endsBare true ']' = true := by decide
    obtain ⟨gap, back, isTrivia, split, read⟩ := first.readElement_append (apart.append ends rest)
    rw [split, isTrivia.readItems_append] at behind
    rw [List.append_assoc, isFiller.readItems_append, List.append_assoc, equal, List.cons_append]
    rw [equal, List.cons_append] at read
    exact readItems_item opening opens read behind

theorem SpellsMembers.readMembers_append {written : List Char} {members : List (String × Value)}
    (h : SpellsMembers (EndsBefore true) written members) (opening rest : List Char) :
    readMembers opening (written ++ '}' :: rest) = .ok (members, rest) := by
  match h with
  | .nil isFiller => rw [isFiller.readMembers_append, readMembers_close]
  | @SpellsMembers.cons _ gap' _ inner written more _ _ _ isFiller isName isInner first apart later =>
    have behind := later.readMembers_append opening rest
    obtain ⟨named, gap, rfl, reads⟩ := isName.exists_readsName
    have ends : endsBare true '}' = true := by decide
    obtain ⟨front, back, isTrivia, split, read⟩ := first.readElement_append (apart.append ends rest)
    rw [split, isTrivia.readMembers_append] at behind
    have shape : gap' ++ (named ++ gap ++ ':' :: (inner ++ (written ++ more))) ++ '}' :: rest =
        gap' ++ (named ++ (gap ++ ':' :: (inner ++ (written ++ (more ++ '}' :: rest))))) := by simp
    rw [shape, isFiller.readMembers_append]
    refine readMembers_member opening (reads.solid _) reads.nonempty reads.begins (reads.read _)
      reads.isTrivia ?_ behind
    rw [isInner.readElement_append, read]

end

/-! ## Whole texts -/

/-- A spelling with blanks and complete comments around it is read as its value, if what stands behind it
lets it end. -/
theorem Spells.read_append {front written back : List Char} {value : Value}
    (h : Spells (EndsBefore true) written value) (isFront : Trivia front) (isBack : Trivia back)
    (ends : EndsBefore false written back) :
    read (String.ofList (front ++ (written ++ back))) = .ok value := by
  obtain ⟨gap, more, isGap, rfl, element⟩ := h.readElement_append ends
  have nothing : skipTrivia more = .ok [] := by
    have whole := isBack.skipTrivia_append []
    rw [List.append_nil, isGap.skipTrivia_append] at whole
    rw [whole]
    rfl
  rw [Value.read, String.toList_ofList, readAll, isFront.readElement_append, element]
  simp only [nothing]
  rfl

/-- **Spellings.** Every spelling of a value is read as the value, if each value without quotes in an array
or object is followed by a line break, a comma or the closing bracket, with blanks of its line in front of
it at most. -/
theorem read_of_spells {written : List Char} {value : Value}
    (h : Spells (EndsBefore true) written value) : read (String.ofList written) = .ok value := by
  have alone : EndsBefore false written [] :=
    ⟨[], [], rfl, List.forall_mem_nil _, fun _ _ => .inr (stops_nil _)⟩
  have whole := h.read_append .nil .nil alone
  rwa [List.nil_append, List.append_nil] at whole

/-- An object with a name without quotes, and an array of a word and a quotation. -/
theorem read_of_spells_object :
    Spells (EndsBefore true) "\x7bk : [x , '\\u00E9']\x7d".toList
        (ofMembers [("k", .array [.string "x", .string "é"])]) ∧
      read "\x7bk : [x , '\\u00E9']\x7d" = .ok (ofMembers [("k", .array [.string "x", .string "é"])]) := by
  have blank : Trivia [' '] := .blank (by decide) .nil
  have word : Spells (EndsBefore true) ['x'] (.string "x") := by
    refine .bare (.word ?_)
    constructor <;> simp [isBlank, isLineBreak]
  have letter : SpellsChar '\'' "\\u00E9".toList 'é' :=
    @SpellsChar.code _ 'é' (fun place => place = 2) (by decide)
  have quotation : Spells (EndsBefore true) "'\\u00E9'".toList (.string "é") :=
    .quotation (.inr rfl) (.cons letter .nil)
  -- a quotation ends by itself, also in front of nothing
  have closed : ∀ {quote : Char} {tail : List Char}, closesItself quote = true →
      EndsBefore true (quote :: tail) [] := by
    intro quote tail closes
    refine ⟨[], [], rfl, List.forall_mem_nil _, ?_⟩
    rintro c ⟨⟩
    exact .inl closes
  have last : SpellsItems (EndsBefore true) " , '\\u00E9'".toList [.string "é"] :=
    @SpellsItems.cons _ " , ".toList "'\\u00E9'".toList [] _ _
      (.trivia blank (.comma (.trivia blank .nil))) quotation (closed (by decide)) (.nil .nil)
  have apart : EndsBefore true ['x'] " , '\\u00E9'".toList := by
    refine ⟨[' '], _, rfl, List.forall_mem_singleton.2 (by decide), fun _ _ => .inr ?_⟩
    rintro c ⟨⟩
    decide
  have items : SpellsItems (EndsBefore true) "x , '\\u00E9'".toList [.string "x", .string "é"] :=
    @SpellsItems.cons _ [] ['x'] _ _ _ .nil word apart last
  have name : SpellsName "k ".toList ['k'] := by
    refine @SpellsName.bare ['k'] [' '] ?_ (List.forall_mem_singleton.2 (by decide))
    refine ⟨?_, ?_, ⟨?_, ?_⟩, ?_, ?_⟩ <;> simp [isBlank, isLineBreak]
  have members : SpellsMembers (EndsBefore true) "k : [x , '\\u00E9']".toList
      [("k", .array [.string "x", .string "é"])] :=
    @SpellsMembers.cons _ [] "k ".toList [' '] "[x , '\\u00E9']".toList [] _ _ _ .nil name blank
      (.array items) (closed (by decide)) (.nil .nil)
  have spells := @Spells.object (EndsBefore true) "k : [x , '\\u00E9']".toList _ members
  exact ⟨spells, read_of_spells spells⟩

/-- Blanks alone do not end a word: two words with a blank between them are one string. -/
theorem read_blank_between_words :
    Spells (fun _ _ => True) "[a b]".toList (.array [.string "a", .string "b"]) ∧
      read "[a b]" = .ok (.array [.string "a b"]) ∧
      read "[a b]" ≠ .ok (.array [.string "a", .string "b"]) := by
  have word : ∀ c ∈ ['a', 'b'], Spells (fun _ _ => True) [c] (.string (String.ofList [c])) := by
    intro c member
    refine .bare (.word ?_)
    simp only [List.mem_cons, List.not_mem_nil, or_false] at member
    rcases member with rfl | rfl <;> constructor <;> simp [isBlank, isLineBreak]
  have blank : Filler [' '] := .trivia (.blank (by decide) .nil) .nil
  have last : SpellsItems (fun _ _ => True) " b".toList [.string "b"] :=
    @SpellsItems.cons _ [' '] ['b'] [] _ _ blank (word 'b' (by simp)) trivial (.nil .nil)
  have items : SpellsItems (fun _ _ => True) "a b".toList [.string "a", .string "b"] :=
    @SpellsItems.cons _ [] ['a'] " b".toList _ _ .nil (word 'a' (by simp)) trivial last
  have chars : readAll "[a b]".toList = .ok (.array [.string "a b"]) := by
    simp [readAll, readElement_eq, readItems_eq, skipTrivia, isBlank, readBare, endsBare, isLineBreak,
      trim, trimStart, trimEnd, bareValue, bareNumber?, looksNumeric]
  have whole : read "[a b]" = .ok (.array [.string "a b"]) := by
    rw [read, chars]
    rfl
  refine ⟨.array items, whole, ?_⟩
  rw [whole]
  simp

end Phrasebook.Value
