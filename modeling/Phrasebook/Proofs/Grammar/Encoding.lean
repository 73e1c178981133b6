import Phrasebook.Grammar.Encoding

/-!
# Grammars read back

A grammar that is encoded and read is the same grammar, at any nesting. The members that say that a literal
is not case sensitive may be left out, since a reader assumes that: `Value.without` takes members away at any
depth, and `Part.ofValue_without` and `Grammar.ofValue_without` read what is left.
-/

namespace Phrasebook

/-! ## Values with members taken away -/

mutual

/-- A value without the members that are to be dropped, at any depth. -/
def Value.without (drops : String × Value → Bool) : Value → Value
  | .array items => .array (Value.itemsWithout drops items)
  | .object members => .object (Value.membersWithout drops members)
  | value => value

/-- The items of an array, each without the members that are to be dropped. -/
def Value.itemsWithout (drops : String × Value → Bool) : List Value → List Value
  | [] => []
  | item :: items => item.without drops :: Value.itemsWithout drops items

/-- The members of an object that are kept, each without those inside it that are to be dropped. -/
def Value.membersWithout (drops : String × Value → Bool) :
    List (String × Value) → List (String × Value)
  | [] => []
  | (name, value) :: members =>
    if drops (name, value) then Value.membersWithout drops members
    else (name, value.without drops) :: Value.membersWithout drops members

end

mutual

/-- A value stays the same if nothing is dropped. -/
theorem Value.without_none (value : Value) : value.without (fun _ => false) = value := by
  cases value with
  | array items => rw [Value.without, Value.itemsWithout_none items]
  | object members => rw [Value.without, Value.membersWithout_none members]
  | _ => rfl

theorem Value.itemsWithout_none (items : List Value) :
    Value.itemsWithout (fun _ => false) items = items := by
  cases items with
  | nil => rfl
  | cons item items =>
    rw [Value.itemsWithout, Value.without_none item, Value.itemsWithout_none items]

theorem Value.membersWithout_none (members : List (String × Value)) :
    Value.membersWithout (fun _ => false) members = members := by
  match members with
  | [] => rfl
  | (name, value) :: members =>
    rw [Value.membersWithout, Value.without_none value, Value.membersWithout_none members]
    rfl

end

/-- Strings have no members. -/
theorem Value.itemsWithout_strings (drops : String × Value → Bool) (texts : List String) :
    Value.itemsWithout drops (texts.map .string) = texts.map .string := by
  induction texts with
  | nil => rfl
  | cons text texts ih =>
    rw [List.map_cons, Value.itemsWithout, ih]
    rfl

/-! ## Parts and grammars -/

/-- The member that a literal has when it is not case sensitive. -/
def isDefaultCase : String × Value → Bool
  | ("case_sensitive", .bool false) => true
  | _ => false

/-- Nothing but such members is dropped. -/
def DropsDefaults (drops : String × Value → Bool) : Prop :=
  ∀ name value, drops (name, value) = true → name = "case_sensitive" ∧ value = .bool false

theorem dropsDefaults_isDefaultCase : DropsDefaults isDefaultCase := by
  intro name value h
  unfold isDefaultCase at h
  split at h
  · next equal =>
    cases equal
    exact ⟨rfl, rfl⟩
  · cases h

theorem dropsDefaults_none : DropsDefaults fun _ => false := by
  intro name value h
  cases h

section Reading

variable {drops : String × Value → Bool}

theorem DropsDefaults.keeps (h : DropsDefaults drops) {name : String} (other : name ≠ "case_sensitive")
    (value : Value) : drops (name, value) = false := by
  cases dropped : drops (name, value) with
  | false => rfl
  | true => exact absurd (h name value dropped).1 other

/-- The members of a part whose name is another one are kept. -/
theorem DropsDefaults.membersWithout_cons (h : DropsDefaults drops) {name : String}
    (other : name ≠ "case_sensitive") (value : Value) (members : List (String × Value)) :
    Value.membersWithout drops ((name, value) :: members) =
      (name, value.without drops) :: Value.membersWithout drops members := by
  rw [Value.membersWithout, h.keeps other, if_neg Bool.false_ne_true]

theorem fromValue_strings (texts : List String) :
    fromValue (.array (texts.map .string)) = .ok texts := by
  have read := @fromValue_map String String _ .string id (fun _ => rfl) texts
  rwa [List.map_id] at read

/-- A literal is read whether or not it says that it is not case sensitive. -/
theorem literalOfMembers_without (h : DropsDefaults drops) (kind : Value) (tokens : List String)
    (caseSensitive : Bool) :
    literalOfMembers (("kind", kind) :: ("tokens", .array (tokens.map .string)) ::
      Value.membersWithout drops [("case_sensitive", .bool caseSensitive)]) =
        .ok (.literal tokens caseSensitive) := by
  have readTokens := fromValue_strings tokens
  have readCase : fromValue (.bool caseSensitive) = .ok caseSensitive := rfl
  rw [Value.membersWithout]
  split
  · next dropped =>
    obtain ⟨-, isFalse⟩ := h _ _ dropped
    cases isFalse
    simp [literalOfMembers, checkLiteral, field, required, Members.find?, readTokens,
      Value.membersWithout, bind, Except.bind, pure, Except.pure, Except.map]
  · simp [literalOfMembers, checkLiteral, field, required, Members.find?, readTokens, readCase,
      Value.membersWithout, Value.without, bind, Except.bind, pure, Except.pure, Except.map]

/-- An optional part is read from its kind and its body. -/
theorem Part.ofValue_optional (inside : Bool) {items : List Value} {body : Grammar}
    (h : partsOfItems true items = .ok body) :
    Part.ofValue inside (.object [("kind", .string "optional"), ("components", .array items)]) =
      .ok (.optional body) := by
  have isOptional : PartKind.ofValue inside (.string "optional") = .ok .optional := rfl
  simp [Part.ofValue, Members.find?, isOptional, bodyOfMembers, grammarOfValue, h, required, bind,
    Except.bind, pure, Except.pure]

/-- A choice is read from its kind and its alternatives. -/
theorem Part.ofValue_choices (inside : Bool) {items : List Value} {alternatives : List Grammar}
    (h : alternativesOfItems items = .ok alternatives) :
    Part.ofValue inside (.object [("kind", .string "choices"), ("choices", .array items)]) =
      .ok (.choices alternatives) := by
  have isChoices : PartKind.ofValue inside (.string "choices") = .ok .choices := rfl
  simp [Part.ofValue, Members.find?, isChoices, choicesOfMembers, alternativesOfValue, h, required,
    bind, Except.bind, pure, Except.pure]

mutual

/-- A part is read from what is left of its value. -/
theorem Part.ofValue_without (h : DropsDefaults drops) (inside : Bool) (part : Part) :
    Part.ofValue inside (part.toValue.without drops) = .ok part := by
  match part with
  | .literal tokens caseSensitive =>
    rw [Part.toValue, Value.without, h.membersWithout_cons (by decide),
      h.membersWithout_cons (by decide), Value.without, Value.itemsWithout_strings]
    exact literalOfMembers_without h _ tokens caseSensitive
  | .argument name =>
    rw [Part.toValue, Value.without, h.membersWithout_cons (by decide),
      h.membersWithout_cons (by decide)]
    rfl
  | .optional body =>
    rw [Part.toValue, Value.without, h.membersWithout_cons (by decide),
      h.membersWithout_cons (by decide), Value.without]
    exact Part.ofValue_optional inside (partsOfItems_without h true body)
  | .choices alternatives =>
    rw [Part.toValue, Value.without, h.membersWithout_cons (by decide),
      h.membersWithout_cons (by decide), Value.without]
    exact Part.ofValue_choices inside (alternativesOfItems_without h alternatives)

/-- So are the parts of a grammar, one after another. -/
theorem partsOfItems_without (h : DropsDefaults drops) (inside : Bool) (grammar : Grammar) :
    partsOfItems inside (Value.itemsWithout drops (Grammar.toValues grammar)) = .ok grammar := by
  match grammar with
  | [] => rfl
  | part :: parts =>
    rw [Grammar.toValues, Value.itemsWithout, partsOfItems, Part.ofValue_without h inside part,
      partsOfItems_without h inside parts]

/-- So are the alternatives of a choice. -/
theorem alternativesOfItems_without (h : DropsDefaults drops) (alternatives : List Grammar) :
    alternativesOfItems (Value.itemsWithout drops (Grammar.alternativeValues alternatives)) =
      .ok alternatives := by
  match alternatives with
  | [] => rfl
  | alternative :: alternatives =>
    rw [Grammar.alternativeValues, Value.itemsWithout, Value.without, alternativesOfItems,
      grammarOfValue, partsOfItems_without h true alternative,
      alternativesOfItems_without h alternatives]

end

theorem Grammar.ofValue_without (h : DropsDefaults drops) (grammar : Grammar) :
    Grammar.ofValue ((Grammar.toValue grammar).without drops) = .ok grammar := by
  rw [Grammar.ofValue, Grammar.toValue, Value.without, grammarOfValue]
  exact partsOfItems_without h false grammar

end Reading

/-! ## As they were written -/

theorem Part.ofValue_toValue (inside : Bool) (part : Part) :
    Part.ofValue inside part.toValue = .ok part := by
  have read := part.ofValue_without dropsDefaults_none inside
  rwa [Value.without_none] at read

theorem Grammar.ofValue_toValue (grammar : Grammar) :
    Grammar.ofValue (Grammar.toValue grammar) = .ok grammar := by
  have read := Grammar.ofValue_without dropsDefaults_none grammar
  rwa [Value.without_none] at read

end Phrasebook
