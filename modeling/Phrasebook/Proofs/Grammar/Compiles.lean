import Phrasebook.Proofs.Grammar.Literal

/-!
# Texts with the grammars that they compile to

`Compiles` describes compilation without a reading order: a text is plain text, or plain text in front of
a bracket whose contents stand for a part. `compiles_iff` says that it describes what `compileParts`
answers.
-/

namespace Phrasebook

open Phrasebook.Text

/-- Text in front of a bracket, its contents, and the text behind it. -/
def bracketText (front : List Char) (opening : Char) (contents : List Char) (closing : Char)
    (rest : List Char) : List Char :=
  front ++ opening :: (contents ++ closing :: rest)

/-- The grammar of a text. -/
inductive Compiles : List Char → Grammar → Prop
  | literal {front : List Char} {parts : Grammar} :
    Plain front → literalParts front = .ok parts → Compiles front parts
  | optional {front contents rest : List Char} {parts body more : Grammar} :
    Plain front → literalParts front = .ok parts → Encloses '(' ')' contents →
    Compiles contents body → body ≠ [] → Compiles rest more →
    Compiles (bracketText front '(' contents ')' rest) (parts ++ .optional body :: more)
  | argument {front contents rest : List Char} {parts more : Grammar} :
    Plain front → literalParts front = .ok parts → Encloses '{' '}' contents →
    '{' ∉ contents → trim contents ≠ [] → Compiles rest more →
    Compiles (bracketText front '{' contents '}' rest)
      (parts ++ .argument (String.ofList contents) :: more)
  | choices {front contents rest : List Char} {parts : Grammar} {alternatives : List Grammar}
    {more : Grammar} :
    Plain front → literalParts front = .ok parts → Encloses '[' ']' contents →
    (alternativeTexts contents).length = alternatives.length →
    (∀ text alternative, (text, alternative) ∈ (alternativeTexts contents).zip alternatives →
      Compiles text alternative) →
    alternatives ≠ [] → Compiles rest more →
    Compiles (bracketText front '[' contents ']' rest) (parts ++ .choices alternatives :: more)

theorem append_bracket (front contents rest : List Char) (opening closing : Char) :
    front ++ (opening :: contents ++ [closing] ++ rest) =
      bracketText front opening contents closing rest := by
  simp [bracketText]

theorem bracketText_append (front contents rest tail : List Char) (opening closing : Char) :
    bracketText front opening contents closing rest ++ tail =
      bracketText front opening contents closing (rest ++ tail) := by
  simp [bracketText]

theorem paired_bracketText {front contents rest : List Char} {opening closing : Char}
    (h : Matching opening closing) (isFront : Paired front) (isContents : Paired contents)
    (isRest : Paired rest) : Paired (bracketText front opening contents closing rest) :=
  isFront.append (.bare h.plain.1 (isContents.append (.bare h.plain.2 isRest)))

theorem Compiles.paired {text : List Char} {grammar : Grammar} (h : Compiles text grammar) :
    Paired text := by
  induction h with
  | literal plain _ => exact plain.1
  | optional plain _ encloses _ _ _ _ ih => exact paired_bracketText .round plain.1 encloses.1 ih
  | argument plain _ encloses _ _ _ ih => exact paired_bracketText .brace plain.1 encloses.1 ih
  | choices plain _ encloses _ _ _ _ _ ih => exact paired_bracketText .square plain.1 encloses.1 ih

theorem readLiteral_bracketText {opening closing : Char} (h : Matching opening closing)
    {front : List Char} (plain : Plain front) (contents rest : List Char) :
    readLiteral (bracketText front opening contents closing rest) =
      .ok (front, opening :: (contents ++ closing :: rest)) := by
  refine readLiteral_append plain fun c member => ?_
  cases member
  exact h.opensBracket_eq

theorem closeBracket?_of_encloses {opening closing : Char} (h : Matching opening closing)
    {contents : List Char} (encloses : Encloses opening closing contents) (rest : List Char) :
    closeBracket? opening closing 0 (contents ++ closing :: rest) = some (contents, rest) :=
  closeBracket?_append h encloses.1 encloses.2 rest

theorem compileAlternatives_iff {texts : List (List Char)} {alternatives : List Grammar} :
    compileAlternatives texts = .ok alternatives ↔
      List.Forall₂ (fun text alternative => compileParts text = .ok alternative) texts
        alternatives := by
  induction texts generalizing alternatives with
  | nil =>
    rw [compileAlternatives_nil, List.forall₂_nil_left_iff, Except.ok.injEq]
    exact eq_comm
  | cons text texts ih =>
    rw [compileAlternatives_cons, List.forall₂_cons_left_iff]
    constructor
    · intro h
      cases first : compileParts text with
      | error fault => rw [first] at h; cases h
      | ok alternative =>
        cases others : compileAlternatives texts with
        | error fault => rw [first, others] at h; cases h
        | ok alternatives' =>
          rw [first, others] at h
          cases h
          exact ⟨alternative, alternatives', rfl, ih.1 others, rfl⟩
    · rintro ⟨alternative, alternatives', first, others, rfl⟩
      rw [first, ih.2 others]

theorem compileParts_of_compiles {text : List Char} {grammar : Grammar}
    (h : Compiles text grammar) : compileParts text = .ok grammar := by
  induction h with
  | @literal front parts plain literal =>
    have read := @readLiteral_append front plain [] fun c member => by cases member
    rw [List.append_nil] at read
    rw [compileParts_eq, read]
    simp only [literal]
  | @optional front contents rest parts body more plain literal encloses _ some _ ih ih' =>
    rw [compileParts_eq, readLiteral_bracketText .round plain]
    simp only [literal, if_true, closeBracket?_of_encloses .round encloses, ih, ih',
      List.isEmpty_iff, some, if_false]
  | @argument front contents rest parts more plain literal encloses noBrace some _ ih =>
    have other : '{' ≠ '(' := by decide
    rw [compileParts_eq, readLiteral_bracketText .brace plain]
    simp only [literal, other, if_false, if_true, closeBracket?_of_encloses .brace encloses,
      List.contains_iff_mem, noBrace, List.isEmpty_iff, some, ih]
  | @choices front contents rest parts alternatives more plain literal encloses length each some _
      ih ih' =>
    have others : '[' ≠ '(' ∧ '[' ≠ '{' := by decide
    have all : compileAlternatives (alternativeTexts contents) = .ok alternatives :=
      compileAlternatives_iff.2 (List.forall₂_iff_zip.2 ⟨length, fun member => ih _ _ member⟩)
    rw [compileParts_eq, readLiteral_bracketText .square plain]
    simp only [literal, others.1, others.2, if_false, closeBracket?_of_encloses .square encloses,
      all, List.isEmpty_iff, some, ih']

/-- The bracket that closes an opened one encloses contents with it. -/
theorem exists_encloses {opening closing : Char} (h : Matching opening closing)
    {tail contents rest : List Char} (closed : closeBracket? opening closing 0 tail =
      some (contents, rest)) :
    tail = contents ++ closing :: rest ∧ Encloses opening closing contents := by
  obtain ⟨equal, paired, level⟩ := of_closeBracket? h closed
  exact ⟨equal, paired, level⟩

theorem length_lt_totalLength {piece : List Char} {pieces : List (List Char)}
    (member : piece ∈ pieces) : piece.length < totalLength pieces := by
  induction pieces with
  | nil => cases member
  | cons first pieces ih =>
    rw [totalLength_cons]
    rcases List.mem_cons.1 member with rfl | later
    · exact Nat.lt_of_lt_of_le (Nat.lt_succ_self _) (Nat.le_add_right _ _)
    · exact Nat.lt_of_lt_of_le (ih later) (Nat.le_add_left _ _)

theorem length_lt_of_mem_alternativeTexts {text contents : List Char}
    (member : text ∈ alternativeTexts contents) : text.length < contents.length + 1 :=
  Nat.lt_of_lt_of_le (length_lt_totalLength member) (totalLength_alternativeTexts_le contents)

theorem length_bracketText (front contents rest : List Char) (opening closing : Char) :
    (bracketText front opening contents closing rest).length =
      front.length + contents.length + rest.length + 2 := by
  simp only [bracketText, List.length_append, List.length_cons]
  omega

section

variable {text front tail : List Char} {parts grammar : Grammar}

/-- A text that compiles with a round bracket in front has an optional part there. -/
theorem exists_optional (read : readLiteral text = .ok (front, '(' :: tail))
    (literal : literalParts front = .ok parts) (h : compileParts text = .ok grammar) :
    ∃ contents rest body more, tail = contents ++ ')' :: rest ∧ Encloses '(' ')' contents ∧
      compileParts contents = .ok body ∧ body ≠ [] ∧ compileParts rest = .ok more ∧
      grammar = parts ++ .optional body :: more := by
  rw [compileParts_eq, read] at h
  simp only [literal, if_true] at h
  split at h
  · cases h
  · next contents rest closed =>
    obtain ⟨equal, encloses⟩ := exists_encloses .round closed
    split at h
    · cases h
    · next body inside =>
      split at h
      · cases h
      · next some =>
        split at h
        · cases h
        · next more behind =>
          cases h
          exact ⟨contents, rest, body, more, equal, encloses, inside, by simpa using some, behind,
            rfl⟩

/-- A text that compiles with a brace in front has an argument there. -/
theorem exists_argument (read : readLiteral text = .ok (front, '{' :: tail))
    (literal : literalParts front = .ok parts) (h : compileParts text = .ok grammar) :
    ∃ contents rest more, tail = contents ++ '}' :: rest ∧ Encloses '{' '}' contents ∧
      '{' ∉ contents ∧ trim contents ≠ [] ∧ compileParts rest = .ok more ∧
      grammar = parts ++ .argument (String.ofList contents) :: more := by
  have other : '{' ≠ '(' := by decide
  rw [compileParts_eq, read] at h
  simp only [literal, other, if_false, if_true] at h
  split at h
  · cases h
  · next contents rest closed =>
    obtain ⟨equal, encloses⟩ := exists_encloses .brace closed
    split at h
    · cases h
    · next noBrace =>
      split at h
      · cases h
      · next some =>
        split at h
        · cases h
        · next more behind =>
          cases h
          exact ⟨contents, rest, more, equal, encloses, by simpa using noBrace,
            by simpa using some, behind, rfl⟩

/-- A text that compiles with a square bracket in front has a choice there. -/
theorem exists_choices (read : readLiteral text = .ok (front, '[' :: tail))
    (literal : literalParts front = .ok parts) (h : compileParts text = .ok grammar) :
    ∃ contents rest alternatives more, tail = contents ++ ']' :: rest ∧ Encloses '[' ']' contents ∧
      compileAlternatives (alternativeTexts contents) = .ok alternatives ∧ alternatives ≠ [] ∧
      compileParts rest = .ok more ∧ grammar = parts ++ .choices alternatives :: more := by
  have others : '[' ≠ '(' ∧ '[' ≠ '{' := by decide
  rw [compileParts_eq, read] at h
  simp only [literal, others.1, others.2, if_false] at h
  split at h
  · cases h
  · next contents rest closed =>
    obtain ⟨equal, encloses⟩ := exists_encloses .square closed
    split at h
    · cases h
    · next alternatives inside =>
      split at h
      · cases h
      · next some =>
        split at h
        · cases h
        · next more behind =>
          cases h
          exact ⟨contents, rest, alternatives, more, equal, encloses, inside, by simpa using some,
            behind, rfl⟩

end

theorem compiles_of_compileParts {text : List Char} {grammar : Grammar}
    (h : compileParts text = .ok grammar) : Compiles text grammar := by
  have rule := compileParts_eq text
  rw [h] at rule
  cases read : readLiteral text with
  | error fault => simp only [read] at rule; cases rule
  | ok result =>
    obtain ⟨front, rest⟩ := result
    obtain ⟨equal, plain⟩ := plain_of_readLiteral read
    simp only [read] at rule
    cases literal : literalParts front with
    | error fault => simp only [literal] at rule; cases rule
    | ok parts =>
      cases rest with
      | nil =>
        simp only [literal, Except.ok.injEq] at rule
        rw [equal, List.append_nil, rule]
        exact .literal plain literal
      | cons c tail =>
        have opens := opensBracket_of_readLiteral read
        simp only [opensBracket, Bool.or_eq_true, decide_eq_true_eq] at opens
        rcases opens with (rfl | rfl) | rfl
        · obtain ⟨contents, rest, body, more, rfl, encloses, inside, some, behind, rfl⟩ :=
            exists_optional read literal h
          have shape : text = bracketText front '(' contents ')' rest := equal
          have length := length_bracketText front contents rest '(' ')'
          rw [shape]
          exact .optional plain literal encloses (compiles_of_compileParts inside) some
            (compiles_of_compileParts behind)
        · obtain ⟨contents, rest, more, rfl, encloses, noBrace, some, behind, rfl⟩ :=
            exists_argument read literal h
          have shape : text = bracketText front '{' contents '}' rest := equal
          have length := length_bracketText front contents rest '{' '}'
          rw [shape]
          exact .argument plain literal encloses noBrace some (compiles_of_compileParts behind)
        · obtain ⟨contents, rest, alternatives, more, rfl, encloses, inside, some, behind, rfl⟩ :=
            exists_choices read literal h
          have shape : text = bracketText front '[' contents ']' rest := equal
          have length := length_bracketText front contents rest '[' ']'
          have all := List.forall₂_iff_zip.1 (compileAlternatives_iff.1 inside)
          rw [shape]
          refine .choices plain literal encloses all.1 ?_ some (compiles_of_compileParts behind)
          intro own alternative member
          have shorter := length_lt_of_mem_alternativeTexts (List.of_mem_zip member).1
          exact compiles_of_compileParts (all.2 member)
termination_by text.length
decreasing_by all_goals (rw [shape]; omega)

/-- `Compiles` describes compilation. -/
theorem compiles_iff {text : List Char} {grammar : Grammar} :
    Compiles text grammar ↔ compileParts text = .ok grammar :=
  ⟨compileParts_of_compiles, compiles_of_compileParts⟩

/-! ## Blanks around a text -/

theorem literalParts_cons_blank {c : Char} (blank : isBlank c = true) (front : List Char) :
    literalParts (c :: front) = literalParts front := by
  rw [literalParts, trimUnescaped_cons_blank blank, literalParts]

theorem compileParts_cons_blank {c : Char} (blank : isBlank c = true) (text : List Char) :
    compileParts (c :: text) = compileParts text := by
  rw [compileParts_eq, compileParts_eq text,
    readLiteral_bare (plain_of_isBlank blank) (isBracket_of_isBlank blank)]
  cases readLiteral text with
  | error fault => rfl
  | ok result => simp only [Except.map, literalParts_cons_blank blank]

/-- A blank in front of a text has no part in its grammar. -/
theorem compiles_cons_blank {c : Char} (blank : isBlank c = true) {text : List Char}
    {grammar : Grammar} : Compiles (c :: text) grammar ↔ Compiles text grammar := by
  rw [compiles_iff, compiles_iff, compileParts_cons_blank blank]

/-- A text that is no more than blanks has no parts, and there is no other one without. -/
theorem Compiles.ne_nil {text : List Char} {grammar : Grammar} (h : Compiles text grammar)
    (starts : ∀ c ∈ text.head?, isBlank c = false) (neat : Neat text) (some : text ≠ []) :
    grammar ≠ [] := by
  cases h with
  | literal plain literal =>
    rcases cases_of_literalParts literal with ⟨empty, -⟩ | ⟨tokens, -, rfl⟩
    · rw [trimUnescaped_self starts neat] at empty
      exact absurd empty some
    · exact List.cons_ne_nil _ _
  | optional _ _ _ _ _ _ => simp
  | argument _ _ _ _ _ _ => simp
  | choices _ _ _ _ _ _ _ => simp

/-- The texts of alternatives are neat and hold more than blanks. -/
theorem neat_alternativeTexts {contents text : List Char} (paired : Paired contents)
    (member : text ∈ alternativeTexts contents) :
    Neat text ∧ text ≠ [] ∧ ∀ c ∈ text.head?, isBlank c = false := by
  obtain ⟨trimmed, some⟩ := List.mem_filter.1 member
  obtain ⟨piece, isPiece, rfl⟩ := List.mem_map.1 trimmed
  have isPaired := (pieces_splitChoices paired 0).1.paired piece isPiece
  obtain ⟨-, -, -, -, -, starts, neat⟩ := exists_trimUnescaped isPaired
  exact ⟨neat, by simpa using some, starts⟩

end Phrasebook
