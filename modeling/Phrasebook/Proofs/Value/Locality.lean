import Phrasebook.Proofs.Value.Rules

/-!
# What a reader takes does not hang on what follows

A reader that has taken a value from the front of a text takes the same from every text that begins
with the same characters (`Takes`). Quotations, arrays and objects end by themselves. A bare value ends
in front of a character that ends it, so the text behind it must be empty or begin with such a
character (`MayEnd`). `takes_of_readElement` is the statement for all values.
-/

namespace Phrasebook.Value

open Phrasebook.Text

/-! ## Kinds of values -/

/-- What a value that begins with `c` takes from the text behind `c`. -/
def TakesBody (inside : Bool) (c : Char) (tail : List Char) (value : Value)
    (rest : List Char) : Prop :=
  ∃ body, tail = body ++ rest ∧ Finished inside c body ∧ MayEnd inside c rest ∧
    ∀ rest, MayEnd inside c rest → readElement inside (c :: (body ++ rest)) = .ok (value, rest)

/-- What the items of an array take from a text. -/
def TakesItems (text : List Char) (items : List Value) (rest : List Char) : Prop :=
  ∃ taken, taken.getLast? = some ']' ∧ text = taken ++ rest ∧
    ∀ opening, Takes (readItems opening) taken items

/-- What the members of an object take from a text. -/
def TakesMembers (text : List Char) (members : List (String × Value)) (rest : List Char) : Prop :=
  ∃ taken, taken.getLast? = some '}' ∧ text = taken ++ rest ∧
    ∀ opening, Takes (readMembers opening) taken members

section Kinds

variable {inside : Bool} {c : Char} {tail rest : List Char} {value : Value}

theorem takesBody_of_quotation (quotes : c = '"' ∨ c = '\'')
    (h : readElement inside (c :: tail) = .ok (value, rest)) :
    TakesBody inside c tail value rest := by
  have opens : opensValue c = true := by rcases quotes with rfl | rfl <;> decide
  have closes : closesItself c = true := by rcases quotes with rfl | rfl <;> decide
  rw [readElement_cons opens, if_pos quotes] at h
  cases read : readQuoted c (c :: tail) tail with
  | error fault => simp [read] at h
  | ok result =>
    obtain ⟨content, behind⟩ := result
    simp only [read] at h
    obtain ⟨rfl, rfl⟩ := Prod.mk.inj (Except.ok.inj h)
    obtain ⟨taken, rfl, last, takes⟩ := takes_of_readQuoted read
    have ends : closing c = c := by rcases quotes with rfl | rfl <;> rfl
    refine ⟨taken, rfl, .inl ⟨closes, by rw [last, ends]⟩, .inl closes, fun rest _ => ?_⟩
    rw [readElement_cons opens, if_pos quotes]
    simp only [takes _ rest]

theorem takesBody_of_object
    (members : ∀ {opening found rest},
      readMembers opening tail = .ok (found, rest) → TakesMembers tail found rest)
    (h : readElement inside ('{' :: tail) = .ok (value, rest)) :
    TakesBody inside '{' tail value rest := by
  have opens : opensValue '{' = true := by decide
  rw [readElement_cons opens, if_neg (by decide), if_pos rfl] at h
  cases read : readMembers ('{' :: tail) tail with
  | error fault => simp [read] at h
  | ok result =>
    obtain ⟨found, behind⟩ := result
    simp only [read] at h
    obtain ⟨rfl, rfl⟩ := Prod.mk.inj (Except.ok.inj h)
    obtain ⟨taken, last, rfl, takes⟩ := members read
    refine ⟨taken, rfl, .inl ⟨by decide, last⟩, .inl (by decide), fun rest _ => ?_⟩
    rw [readElement_cons opens, if_neg (by decide), if_pos rfl]
    simp only [takes _ rest]

theorem takesBody_of_array
    (items : ∀ {opening found rest},
      readItems opening tail = .ok (found, rest) → TakesItems tail found rest)
    (h : readElement inside ('[' :: tail) = .ok (value, rest)) :
    TakesBody inside '[' tail value rest := by
  have opens : opensValue '[' = true := by decide
  rw [readElement_cons opens, if_neg (by decide), if_neg (by decide), if_pos rfl] at h
  cases read : readItems ('[' :: tail) tail with
  | error fault => simp [read] at h
  | ok result =>
    obtain ⟨found, behind⟩ := result
    simp only [read] at h
    obtain ⟨rfl, rfl⟩ := Prod.mk.inj (Except.ok.inj h)
    obtain ⟨taken, last, rfl, takes⟩ := items read
    refine ⟨taken, rfl, .inl ⟨by decide, last⟩, .inl (by decide), fun rest _ => ?_⟩
    rw [readElement_cons opens, if_neg (by decide), if_neg (by decide), if_pos rfl]
    simp only [takes _ rest]

theorem takesBody_of_bare (opens : opensValue c = true) (noClose : closesItself c = false)
    (h : readElement inside (c :: tail) = .ok (value, rest)) :
    TakesBody inside c tail value rest := by
  obtain ⟨body, behind, rfl, inTail, ends⟩ := exists_bare inside tail
  have inBare : ∀ d ∈ c :: body, endsBare inside d = false :=
    List.forall_mem_cons.2 ⟨endsBare_of_opensValue opens inside, inTail⟩
  rw [readElement_bare opens noClose inBare ends] at h
  obtain ⟨rfl, rfl⟩ := Prod.mk.inj (Except.ok.inj h)
  refine ⟨body, rfl, .inr ⟨noClose, inBare⟩, .inr ends, fun rest mayEnd => ?_⟩
  exact readElement_bare opens noClose inBare (mayEnd.resolve_left (by simp [noClose]))

/-- A value takes the same from any text if the parts of an array or object do. -/
theorem takesBody_of_parts (opens : opensValue c = true)
    (items : ∀ {opening found rest},
      readItems opening tail = .ok (found, rest) → TakesItems tail found rest)
    (members : ∀ {opening found rest},
      readMembers opening tail = .ok (found, rest) → TakesMembers tail found rest)
    (h : readElement inside (c :: tail) = .ok (value, rest)) :
    TakesBody inside c tail value rest := by
  cases closes : closesItself c with
  | false => exact takesBody_of_bare opens closes h
  | true =>
    simp only [closesItself, Bool.or_eq_true, decide_eq_true_eq] at closes
    rcases closes with (quotes | rfl) | rfl
    · exact takesBody_of_quotation quotes h
    · exact takesBody_of_object members h
    · exact takesBody_of_array items h

end Kinds

/-- A value stands behind trivia. -/
theorem exists_opensValue_of_readElement {inside : Bool} {text : List Char}
    {result : Value × List Char} (h : readElement inside text = .ok result) :
    ∃ trivia c tail, Trivia trivia ∧ opensValue c = true ∧ text = trivia ++ c :: tail ∧
      readElement inside (c :: tail) = .ok result := by
  have skipped := h
  rw [readElement_eq] at skipped
  cases skips : skipTrivia text with
  | error fault => simp [skips] at skipped
  | ok solid =>
    cases solid with
    | nil => simp [skips] at skipped
    | cons c tail =>
      obtain ⟨trivia, isTrivia, rfl, solid⟩ := trivia_of_skipTrivia skips
      rw [isTrivia.readElement_append] at h
      exact ⟨trivia, c, tail, isTrivia, opensValue_of_readElement solid h, rfl, h⟩

/-! ## Arrays and objects -/

/-- The items of an array take the same from any text if values and shorter arrays do. -/
theorem takesItems_of_parts {text : List Char}
    (elements : ∀ {c tail value rest}, (c :: tail).length ≤ text.length → opensValue c = true →
      readElement true (c :: tail) = .ok (value, rest) → TakesBody true c tail value rest)
    (items : ∀ {shorter opening found rest}, shorter.length < text.length →
      readItems opening shorter = .ok (found, rest) → TakesItems shorter found rest)
    {opening : List Char} {found : List Value} {rest : List Char}
    (h : readItems opening text = .ok (found, rest)) : TakesItems text found rest := by
  obtain ⟨trivia, c, tail, isTrivia, solid, rfl, found'⟩ := exists_solid_of_readItems opening h
  by_cases close : c = ']'
  · subst close
    rw [readItems_close] at found'
    cases found'
    refine ⟨trivia ++ [']'], by simp, by simp, fun opening rest => ?_⟩
    rw [List.append_assoc, isTrivia.readItems_append]
    exact readItems_close opening rest
  by_cases comma : c = ','
  · subst comma
    rw [readItems_comma] at found'
    obtain ⟨taken, last, rfl, takes⟩ := items (by simp; omega) found'
    refine ⟨trivia ++ ',' :: taken,
      getLast?_append_eq_some trivia (getLast?_cons_eq_some ',' last), by simp,
      fun opening rest => ?_⟩
    rw [List.append_assoc, isTrivia.readItems_append, List.cons_append, readItems_comma]
    exact takes opening rest
  obtain ⟨value, behind, others, read, more, rfl⟩ :=
    exists_item_of_readItems opening solid close comma found'
  have opens := opensValue_of_readElement solid read
  have closer := length_lt_of_readElement read
  obtain ⟨body, rfl, -, mayEnd, takesFirst⟩ := elements (by simp) opens read
  obtain ⟨taken, last, rfl, takes⟩ := items (by simp; omega) more
  have some := ne_nil_of_getLast? last
  refine ⟨trivia ++ c :: (body ++ taken),
    getLast?_append_eq_some trivia (getLast?_append_eq_some (c :: body) last), by simp,
    fun opening rest => ?_⟩
  rw [List.append_assoc, isTrivia.readItems_append, List.cons_append, List.append_assoc]
  exact readItems_item opening opens (takesFirst _ (mayEnd.of_append some rest))
    (takes opening rest)

/-- The members of an object take the same from any text if values and shorter objects do. -/
theorem takesMembers_of_parts {text : List Char}
    (elements : ∀ {c tail value rest}, (c :: tail).length ≤ text.length → opensValue c = true →
      readElement true (c :: tail) = .ok (value, rest) → TakesBody true c tail value rest)
    (members : ∀ {shorter opening found rest}, shorter.length < text.length →
      readMembers opening shorter = .ok (found, rest) → TakesMembers shorter found rest)
    {opening : List Char} {found : List (String × Value)} {rest : List Char}
    (h : readMembers opening text = .ok (found, rest)) : TakesMembers text found rest := by
  obtain ⟨trivia, c, tail, isTrivia, solid, rfl, found'⟩ := exists_solid_of_readMembers opening h
  by_cases close : c = '}'
  · subst close
    rw [readMembers_close] at found'
    cases found'
    refine ⟨trivia ++ ['}'], by simp, by simp, fun opening rest => ?_⟩
    rw [List.append_assoc, isTrivia.readMembers_append]
    exact readMembers_close opening rest
  by_cases comma : c = ','
  · subst comma
    rw [readMembers_comma] at found'
    obtain ⟨taken, last, rfl, takes⟩ := members (by simp; omega) found'
    refine ⟨trivia ++ ',' :: taken,
      getLast?_append_eq_some trivia (getLast?_cons_eq_some ',' last), by simp,
      fun opening rest => ?_⟩
    rw [List.append_assoc, isTrivia.readMembers_append, List.cons_append, readMembers_comma]
    exact takes opening rest
  obtain ⟨name, colon, text, value, behind, others, isColon, named, read, more, rfl⟩ :=
    exists_member_of_readMembers opening solid close comma found'
  have shorter := length_le_of_readName named
  have closer := length_lt_of_readElement read
  obtain ⟨front, d, tail', isFront, opens, rfl, read'⟩ := exists_opensValue_of_readElement read
  simp only [List.length_append, List.length_cons] at shorter closer
  obtain ⟨body, rfl, -, mayEnd, takesValue⟩ := elements (by simp; omega) opens read'
  obtain ⟨taken, last, rfl, takes⟩ := members (by simp; omega) more
  have some := ne_nil_of_getLast? last
  -- the name is known by the trivia and the colon behind it
  have divide : ∀ text, colon ++ ':' :: text = (colon ++ [':']) ++ text := by simp
  rw [divide] at named
  obtain ⟨word, someWord, equal, takesName⟩ := takes_of_readName (by simp) named
  have ends : (colon ++ ':' :: (front ++ d :: (body ++ taken))).getLast? = Option.some '}' := by
    apply getLast?_append_eq_some
    apply getLast?_append_eq_some (':' :: front)
    exact getLast?_append_eq_some (d :: body) last
  refine ⟨trivia ++ (word ++ (colon ++ ':' :: (front ++ d :: (body ++ taken)))),
    getLast?_append_eq_some trivia (getLast?_append_eq_some word ends), ?_, fun opening rest => ?_⟩
  · rw [equal]; simp
  have begins : ∀ e ∈ word.head?, e ≠ '}' ∧ e ≠ ',' := by
    cases word with
    | nil => exact absurd rfl someWord
    | cons e word =>
      obtain ⟨rfl, -⟩ := List.cons.inj equal
      rintro e ⟨⟩
      exact ⟨close, comma⟩
  have shape : trivia ++ (word ++ (colon ++ ':' :: (front ++ d :: (body ++ taken)))) ++ rest =
      trivia ++ (word ++ (colon ++ ':' :: (front ++ d :: (body ++ (taken ++ rest))))) := by simp
  have isValue : readElement true (front ++ d :: (body ++ (taken ++ rest))) =
      .ok (value, taken ++ rest) := by
    rw [isFront.readElement_append]
    exact takesValue _ (mayEnd.of_append some rest)
  rw [equal] at solid
  have solid' := solid.of_append someWord (by simp) (front ++ d :: (body ++ (taken ++ rest)))
  have isName := takesName (front ++ d :: (body ++ (taken ++ rest)))
  rw [← divide] at solid' isName
  rw [shape, isTrivia.readMembers_append]
  exact readMembers_member opening solid' someWord begins isName isColon isValue
    (takes opening rest)

/-! ## All texts -/

/-- Values, items and members up to a length, from those that are shorter. -/
theorem takes_of_length_le (length : Nat) :
    (∀ {inside c tail value rest}, (c :: tail).length ≤ length → opensValue c = true →
      readElement inside (c :: tail) = .ok (value, rest) → TakesBody inside c tail value rest) ∧
    (∀ {text opening found rest}, text.length ≤ length →
      readItems opening text = .ok (found, rest) → TakesItems text found rest) ∧
    ∀ {text opening found rest}, text.length ≤ length →
      readMembers opening text = .ok (found, rest) → TakesMembers text found rest := by
  induction length with
  | zero =>
    refine ⟨fun bound => ?_, fun bound h => ?_, fun bound h => ?_⟩
    · simp at bound
    · obtain ⟨trivia, c, tail, -, -, rfl, -⟩ := exists_solid_of_readItems _ h
      simp at bound
    · obtain ⟨trivia, c, tail, -, -, rfl, -⟩ := exists_solid_of_readMembers _ h
      simp at bound
  | succ length ih =>
    obtain ⟨-, items, members⟩ := ih
    have elements : ∀ {inside c tail value rest}, (c :: tail).length ≤ length + 1 →
        opensValue c = true → readElement inside (c :: tail) = .ok (value, rest) →
        TakesBody inside c tail value rest := fun bound opens h =>
      takesBody_of_parts opens (items (by simpa using bound)) (members (by simpa using bound)) h
    refine ⟨elements, fun bound h => ?_, fun bound h => ?_⟩
    · exact takesItems_of_parts (fun shorter => elements (Nat.le_trans shorter bound))
        (fun shorter => items (by omega)) h
    · exact takesMembers_of_parts (fun shorter => elements (Nat.le_trans shorter bound))
        (fun shorter => members (by omega)) h

/-- **Locality.** What a value takes from a text is trivia, the character with which the value begins and
the characters behind that; any text that begins like this holds the same value, if the value may end
where it ends. -/
theorem takes_of_readElement {inside : Bool} {text : List Char} {value : Value} {rest : List Char}
    (h : readElement inside text = .ok (value, rest)) :
    ∃ trivia c body, Trivia trivia ∧ opensValue c = true ∧
      text = trivia ++ c :: body ++ rest ∧ Finished inside c body ∧ MayEnd inside c rest ∧
      ∀ rest, MayEnd inside c rest →
        readElement inside (trivia ++ c :: body ++ rest) = .ok (value, rest) := by
  obtain ⟨trivia, c, tail, isTrivia, opens, rfl, read⟩ := exists_opensValue_of_readElement h
  obtain ⟨body, rfl, finished, mayEnd, takes⟩ := (takes_of_length_le _).1 (Nat.le_refl _) opens read
  refine ⟨trivia, c, body, isTrivia, opens, by simp, finished, mayEnd, fun rest mayEnd => ?_⟩
  rw [List.append_assoc, isTrivia.readElement_append]
  exact takes rest mayEnd

end Phrasebook.Value
