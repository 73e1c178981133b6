import Phrasebook.Proofs.Grammar.Closing
import Phrasebook.Proofs.Grammar.Compiles
import Phrasebook.Proofs.Rounds

/-!
# Compiling by places

A format string can be compiled by going through its places. A round (`compileRound`) takes one character, one
escape, or a bracket with everything up to the one that closes it; what is in a bracket is left to a compiler
for shorter texts. The next place is never behind the end of the text (`index_of_compileRound`). The rounds come
to what `compileParts` answers (`settles_compileRound`), and need that answer for no text that is not shorter.
`closeBracket?_closes` puts this together with what is known of the bracket that closes.
-/

namespace Phrasebook

open Phrasebook.Text

/-! ## Rounds -/

/-- How far a text is compiled: the place where it goes on, the literal in front of this place that is no part
yet, and the parts. -/
structure Cursor where
  index : Nat
  literal : List Char
  parts : Grammar

/-- The bracket that closes one that opens. -/
def closer (opening : Char) : Char :=
  if opening = '(' then ')' else if opening = '{' then '}' else ']'

theorem matching_closer {c : Char} (opens : opensBracket c = true) : Matching c (closer c) := by
  simp only [opensBracket, Bool.or_eq_true, decide_eq_true_eq] at opens
  rcases opens with (rfl | rfl) | rfl
  · exact .round
  · exact .brace
  · exact .square

/-- Compiles texts one after another by `inner`, which may not come to an end. -/
def compileEach (inner : List Char → Option (Except FormatFault Grammar)) :
    List (List Char) → Option (Except FormatFault (List Grammar))
  | [] => some (.ok [])
  | text :: texts =>
    match inner text with
    | none => none
    | some (.error fault) => some (.error fault)
    | some (.ok alternative) =>
      (compileEach inner texts).map fun alternatives => alternatives.map (alternative :: ·)

/-- The part that a bracket with its contents stands for, if `inner` comes to an end with what is in it. -/
def bracketPart (inner : List Char → Option (Except FormatFault Grammar)) (opening : Char)
    (contents : List Char) : Option (Except FormatFault Part) :=
  if opening = '(' then
    (inner contents).map fun
      | .error fault => .error fault
      | .ok body => if body.isEmpty then .error .emptyOptional else .ok (.optional body)
  else if opening = '{' then
    if contents.contains '{' then some (.error .nestedArgument)
    else if (trim contents).isEmpty then some (.error .missingName)
    else some (.ok (.argument (String.ofList contents)))
  else
    (compileEach inner (alternativeTexts contents)).map fun
      | .error fault => .error fault
      | .ok alternatives =>
        if alternatives.isEmpty then .error .emptyChoices else .ok (.choices alternatives)

/-- Compiles what stands at a place. Behind a bracket, the next place is as many characters further as there
are contents, and two more for the brackets. -/
def compileRound (inner : List Char → Option (Except FormatFault Grammar)) (text : List Char)
    (place : Cursor) : Option (Round Cursor (Except FormatFault Grammar)) :=
  match text[place.index]? with
  | none => some (.done ((literalParts place.literal).map (place.parts ++ ·)))
  | some c =>
    if c = '\\' then
      match text[place.index + 1]? with
      | none => some (.done (.error .incompleteEscape))
      | some d => some (.next ⟨place.index + 2, place.literal ++ [c, d], place.parts⟩)
    else if opensBracket c then
      match literalParts place.literal with
      | .error fault => some (.done (.error fault))
      | .ok front =>
        match closeBracket? c (closer c) 0 (text.drop (place.index + 1)) with
        | none => some (.done (.error (.unclosedBracket c)))
        | some (contents, _) =>
          (bracketPart inner c contents).map fun
            | .error fault => .done (.error fault)
            | .ok part =>
              .next ⟨place.index + contents.length + 2, [], place.parts ++ front ++ [part]⟩
    else if closesBracket c then some (.done (.error (.unexpectedBracket c)))
    else some (.next ⟨place.index + 1, place.literal ++ [c], place.parts⟩)

/-- The next place is further on, and not behind the end of the text. -/
theorem index_of_compileRound {inner : List Char → Option (Except FormatFault Grammar)}
    {text : List Char} {place later : Cursor}
    (goes : compileRound inner text place = some (.next later)) :
    place.index < later.index ∧ later.index ≤ text.length := by
  rw [compileRound] at goes
  cases here : text[place.index]? with
  | none => rw [here] at goes; cases goes
  | some c =>
    have inside := (List.getElem?_eq_some_iff.1 here).1
    rw [here] at goes
    simp only at goes
    split at goes
    · cases next : text[place.index + 1]? with
      | none => rw [next] at goes; cases goes
      | some d =>
        have further := (List.getElem?_eq_some_iff.1 next).1
        rw [next] at goes
        cases goes
        exact ⟨Nat.lt_add_of_pos_right (by decide), further⟩
    · split at goes
      · split at goes
        · cases goes
        · split at goes
          · cases goes
          · next contents rest closed =>
            have length := length_of_closeBracket? closed
            simp only [List.length_drop] at length
            obtain ⟨answer, -, leads⟩ := Option.map_eq_some_iff.1 goes
            cases answer with
            | error fault => cases leads
            | ok part =>
              cases leads
              dsimp only
              omega
      · split at goes
        · cases goes
        · cases goes
          exact ⟨Nat.lt_succ_self _, inside⟩

/-! ## Texts behind a literal -/

theorem compileParts_of_plain {literal : List Char} (plain : Plain literal) :
    compileParts literal = literalParts literal := by
  have read : readLiteral (literal ++ []) = .ok (literal, []) :=
    readLiteral_append plain fun c first => by cases first
  rw [List.append_nil] at read
  rw [compileParts_eq, read]
  dsimp only
  cases literalParts literal <;> rfl

/-- A fault behind a literal is met before the literal is looked at. -/
theorem compileParts_of_readLiteral {literal rest : List Char} {fault : FormatFault}
    (plain : Plain literal) (read : readLiteral rest = .error fault) :
    compileParts (literal ++ rest) = .error fault := by
  rw [compileParts_eq, plain.readLiteral_append, read]
  rfl

theorem readLiteral_append_opens {literal : List Char} (plain : Plain literal) {c : Char}
    (opens : opensBracket c = true) (tail : List Char) :
    readLiteral (literal ++ c :: tail) = .ok (literal, c :: tail) :=
  readLiteral_append plain fun d first => by rwa [← Option.some.inj first]

/-- In front of a bracket, the literal is looked at first. -/
theorem compileParts_of_literalParts {literal : List Char} (plain : Plain literal) {c : Char}
    (opens : opensBracket c = true) {fault : FormatFault} (refused : literalParts literal = .error fault)
    (tail : List Char) : compileParts (literal ++ c :: tail) = .error fault := by
  rw [compileParts_eq, readLiteral_append_opens plain opens]
  simp only [refused]

section Brackets

variable {c : Char} {literal tail contents rest : List Char} {front : Grammar}

theorem compileParts_unclosed (opens : opensBracket c = true) (plain : Plain literal)
    (isFront : literalParts literal = .ok front) (missing : closeBracket? c (closer c) 0 tail = none) :
    compileParts (literal ++ c :: tail) = .error (.unclosedBracket c) := by
  rw [compileParts_eq, readLiteral_append_opens plain opens]
  simp only [opensBracket, Bool.or_eq_true, decide_eq_true_eq] at opens
  rcases opens with (rfl | rfl) | rfl
  · replace missing : closeBracket? '(' ')' 0 tail = none := missing
    simp only [isFront, if_true, missing]
  · replace missing : closeBracket? '{' '}' 0 tail = none := missing
    have other : '{' ≠ '(' := by decide
    simp only [isFront, other, if_false, if_true, missing]
  · replace missing : closeBracket? '[' ']' 0 tail = none := missing
    have others : '[' ≠ '(' ∧ '[' ≠ '{' := by decide
    simp only [isFront, others.1, others.2, if_false, missing]

variable {inner : List Char → Option (Except FormatFault Grammar)}

theorem compileEach_eq {texts : List (List Char)}
    (each : ∀ text ∈ texts, inner text = some (compileParts text)) :
    compileEach inner texts = some (compileAlternatives texts) := by
  induction texts with
  | nil => rw [compileEach, compileAlternatives_nil]
  | cons text texts ih =>
    obtain ⟨first, later⟩ := List.forall_mem_cons.1 each
    rw [compileEach, first, compileAlternatives_cons]
    cases compileParts text with
    | error fault => rfl
    | ok alternative =>
      simp only [ih later, Option.map_some]
      cases compileAlternatives texts <;> rfl

/-- A bracket stands for its part if the texts in it are compiled, none of which is longer than the contents. -/
theorem exists_bracketPart (opens : opensBracket c = true) (plain : Plain literal)
    (isFront : literalParts literal = .ok front)
    (closed : closeBracket? c (closer c) 0 tail = some (contents, rest))
    (agrees : ∀ text, text.length ≤ contents.length → inner text = some (compileParts text)) :
    ∃ answer, bracketPart inner c contents = some answer ∧
      compileParts (literal ++ c :: tail) =
        match answer with
        | .error fault => .error fault
        | .ok part => (compileParts rest).map fun more => front ++ part :: more := by
  rw [compileParts_eq, readLiteral_append_opens plain opens]
  simp only [isFront]
  simp only [opensBracket, Bool.or_eq_true, decide_eq_true_eq] at opens
  rcases opens with (rfl | rfl) | rfl
  · replace closed : closeBracket? '(' ')' 0 tail = some (contents, rest) := closed
    refine ⟨_, congrArg (Option.map _) (agrees contents (Nat.le_refl _)), ?_⟩
    simp only [if_true, closed]
    cases compileParts contents with
    | error fault => rfl
    | ok body =>
      cases body with
      | nil => rfl
      | cons part body => cases compileParts rest <;> rfl
  · replace closed : closeBracket? '{' '}' 0 tail = some (contents, rest) := closed
    have other : '{' ≠ '(' := by decide
    simp only [bracketPart, other, if_false, if_true, closed]
    by_cases nested : contents.contains '{'
    · exact ⟨_, if_pos nested, by rw [if_pos nested]⟩
    · rw [if_neg nested, if_neg nested]
      by_cases empty : (trim contents).isEmpty
      · exact ⟨_, if_pos empty, by rw [if_pos empty]⟩
      · refine ⟨_, if_neg empty, ?_⟩
        rw [if_neg empty]
        cases compileParts rest <;> rfl
  · replace closed : closeBracket? '[' ']' 0 tail = some (contents, rest) := closed
    have others : '[' ≠ '(' ∧ '[' ≠ '{' := by decide
    have each : ∀ text ∈ alternativeTexts contents, inner text = some (compileParts text) :=
      fun text member => agrees text (Nat.le_of_lt_succ (length_lt_of_mem_alternativeTexts member))
    refine ⟨_, congrArg (Option.map _) (compileEach_eq each), ?_⟩
    simp only [others.1, others.2, if_false, closed]
    cases compileAlternatives (alternativeTexts contents) with
    | error fault => rfl
    | ok alternatives =>
      cases alternatives with
      | nil => rfl
      | cons alternative alternatives => cases compileParts rest <;> rfl

end Brackets

/-! ## What the rounds come to -/

section Rounds

variable {inner : List Char → Option (Except FormatFault Grammar)} {text : List Char} {place : Cursor}

/-- What the rounds from a place on come to. -/
def Cursor.answer (text : List Char) (place : Cursor) : Except FormatFault Grammar :=
  (compileParts (place.literal ++ text.drop place.index)).map (place.parts ++ ·)

/-- A round of compiling settles what the text is compiled to. -/
abbrev Compiling (inner : List Char → Option (Except FormatFault Grammar)) (text : List Char)
    (place : Cursor) : Prop :=
  Settles (compileRound inner text) (fun place => Plain place.literal)
    (fun place => text.length - place.index) (Cursor.answer text) place

theorem drop_eq_cons {index : Nat} {c : Char} (here : text[index]? = some c) :
    text.drop index = c :: text.drop (index + 1) := by
  obtain ⟨inside, rfl⟩ := List.getElem?_eq_some_iff.1 here
  exact List.drop_eq_getElem_cons inside

/-- The rounds go on to a later place that leads to the same answer. -/
theorem compiling_of_next {later : Cursor} (goes : compileRound inner text place = some (.next later))
    (plain : Plain later.literal) (same : later.answer text = place.answer text) :
    Compiling inner text place := by
  obtain ⟨further, inside⟩ := index_of_compileRound goes
  exact .next goes plain (by omega) same

/-- The answer at a bracket is that of the literal in front, the bracket, and what follows. -/
theorem compiling_opens
    (agrees : ∀ shorter, shorter.length < text.length → inner shorter = some (compileParts shorter))
    (plain : Plain place.literal) {c : Char} (here : text[place.index]? = some c)
    (opens : opensBracket c = true) : Compiling inner text place := by
  have escapes := plain_of_opensBracket opens
  cases literal : literalParts place.literal with
  | error fault =>
    refine .done ?_
    rw [compileRound, here, Cursor.answer, drop_eq_cons here,
      compileParts_of_literalParts plain opens literal]
    simp only [if_neg escapes, opens, if_true, literal]
    rfl
  | ok front =>
    cases closed : closeBracket? c (closer c) 0 (text.drop (place.index + 1)) with
    | none =>
      refine .done ?_
      rw [compileRound, here, Cursor.answer, drop_eq_cons here,
        compileParts_unclosed opens plain literal closed]
      simp only [if_neg escapes, opens, if_true, literal, closed]
      rfl
    | some cut =>
      obtain ⟨contents, rest⟩ := cut
      have length := length_of_closeBracket? closed
      simp only [List.length_drop] at length
      obtain ⟨answer, isPart, whole⟩ :=
        exists_bracketPart opens plain literal closed fun shorter le => agrees shorter (by omega)
      have round : compileRound inner text place = (bracketPart inner c contents).map fun
          | .error fault => .done (.error fault)
          | .ok part => .next
              ⟨place.index + contents.length + 2, [], place.parts ++ front ++ [part]⟩ := by
        rw [compileRound, here]
        simp only [if_neg escapes, opens, if_true, literal, closed]
      rw [isPart, Option.map_some] at round
      cases answer with
      | error fault =>
        refine .done ?_
        rw [round, Cursor.answer, drop_eq_cons here, whole]
        rfl
      | ok part =>
        refine compiling_of_next round plain_nil ?_
        -- The place is the one behind the bracket that closes.
        have behind : text.drop (place.index + contents.length + 2) = rest := by
          obtain ⟨equal, -⟩ := of_closeBracket? (matching_closer opens) closed
          rw [show place.index + contents.length + 2 = place.index + 1 + (contents.length + 1) by omega,
            ← List.drop_drop, equal, List.drop_length_add_append]
          rfl
        rw [Cursor.answer, Cursor.answer, drop_eq_cons here, whole, behind]
        dsimp only
        rw [List.nil_append]
        cases compileParts rest with
        | error fault => rfl
        | ok more => simp only [Except.map, List.append_assoc, List.singleton_append]

/-- Plain text before it is looked at, an escape or a character more is plain as well. -/
theorem settles_compileRound
    (agrees : ∀ shorter, shorter.length < text.length → inner shorter = some (compileParts shorter))
    (plain : Plain place.literal) : Compiling inner text place := by
  cases here : text[place.index]? with
  | none =>
    refine .done ?_
    rw [compileRound, here, Cursor.answer, List.drop_eq_nil_of_le (List.getElem?_eq_none_iff.1 here),
      List.append_nil, compileParts_of_plain plain]
  | some c =>
    by_cases escapes : c = '\\'
    · subst escapes
      cases behind : text[place.index + 1]? with
      | none =>
        refine .done ?_
        have last : text.drop (place.index + 1) = [] :=
          List.drop_eq_nil_of_le (List.getElem?_eq_none_iff.1 behind)
        rw [compileRound, here, Cursor.answer, drop_eq_cons here, last,
          compileParts_of_readLiteral plain rfl]
        simp only [if_true, behind]
        rfl
      | some d =>
        have round : compileRound inner text place =
            some (.next ⟨place.index + 2, place.literal ++ ['\\', d], place.parts⟩) := by
          rw [compileRound, here]
          simp only [if_true, behind]
        refine compiling_of_next round ?_ ?_
        · exact (plain_append plain.1).2 ⟨plain, plain_escaped.2 plain_nil⟩
        · rw [Cursor.answer, Cursor.answer, drop_eq_cons here, drop_eq_cons behind]
          simp only [List.append_assoc, List.cons_append, List.nil_append]
    · cases opens : opensBracket c with
      | true => exact compiling_opens agrees plain here opens
      | false =>
        cases closes : closesBracket c with
        | true =>
          refine .done ?_
          rw [compileRound, here, Cursor.answer, drop_eq_cons here,
            compileParts_of_readLiteral plain (readLiteral_closes escapes closes _)]
          simp only [if_neg escapes, opens, closes, if_true, if_false, Bool.false_eq_true]
          rfl
        | false =>
          have round : compileRound inner text place =
              some (.next ⟨place.index + 1, place.literal ++ [c], place.parts⟩) := by
            rw [compileRound, here]
            simp only [if_neg escapes, opens, closes, if_false, Bool.false_eq_true]
          have noBracket : isBracket c = false := by rw [isBracket, opens, closes]; rfl
          refine compiling_of_next round ?_ ?_
          · exact (plain_append plain.1).2 ⟨plain, (plain_bare escapes).2 ⟨noBracket, plain_nil⟩⟩
          · rw [Cursor.answer, Cursor.answer, drop_eq_cons here]
            simp only [List.append_assoc, List.singleton_append]

/-- The rounds come to what the text is compiled to, with a limit that the length of the text sets. -/
theorem rounds_compileRound
    (agrees : ∀ shorter, shorter.length < text.length → inner shorter = some (compileParts shorter))
    {limit : Nat} (enough : text.length < limit) :
    rounds (compileRound inner text) limit ⟨0, [], []⟩ = some (compileParts text) := by
  rw [rounds_eq_some (fun _ plain => settles_compileRound agrees plain) plain_nil enough]
  simp only [Cursor.answer, List.nil_append, List.drop_zero]
  cases compileParts text <;> rfl

end Rounds

/-- Compiles a text by rounds, and what is in its brackets with a smaller budget. -/
def compileWithin : Nat → List Char → Option (Except FormatFault Grammar)
  | 0, _ => none
  | budget + 1, text => rounds (compileRound (compileWithin budget) text) (budget + 1) ⟨0, [], []⟩

theorem compileWithin_eq_some {budget : Nat} {text : List Char} (enough : text.length < budget) :
    compileWithin budget text = some (compileParts text) := by
  induction budget generalizing text with
  | zero => exact absurd enough (Nat.not_lt_zero _)
  | succ budget ih =>
    exact rounds_compileRound
      (fun _ shorter => ih (Nat.lt_of_lt_of_le shorter (Nat.le_of_lt_succ enough))) enough

/-! ## The bracket that closes -/

/-- What a bracket is cut out with, and what of it is compiled. -/
theorem lengths_of_closeBracket? {opening closing : Char} {text contents rest : List Char} {index : Nat}
    (closed : closeBracket? opening closing 0 (text.drop (index + 1)) = some (contents, rest)) :
    index + contents.length + 2 ≤ text.length ∧
      ∀ shorter ∈ contents :: alternativeTexts contents, shorter.length < text.length := by
  have length := length_of_closeBracket? closed
  simp only [List.length_drop] at length
  refine ⟨by omega, fun shorter member => ?_⟩
  rcases List.mem_cons.1 member with rfl | member
  · omega
  · have := length_lt_of_mem_alternativeTexts member
    omega

/-- The contents of a bracket that opens at `index` are those in front of the one place where a bracket closes
them, and without contents there is no such place. What follows is still in the text, and what is compiled on
its own is shorter than the text. Therefore compilation can go by places: every round goes on to a later one
that is not behind the end, and the rounds come to the grammar of the text, whatever compiles the shorter
texts, as long as it does. Rounds inside of rounds are enough for that. -/
theorem closeBracket?_closes {opening closing : Char} (h : Matching opening closing) (text : List Char)
    (index : Nat) :
    (∀ contents rest, closeBracket? opening closing 0 (text.drop (index + 1)) = some (contents, rest) →
      ∃ stop, ClosesAt opening closing text (index + 1) stop ∧
        (∀ other, ClosesAt opening closing text (index + 1) other → other = stop) ∧
        contents = text.extract (index + 1) stop ∧
        stop + 1 = index + contents.length + 2 ∧ rest = text.drop (index + contents.length + 2) ∧
        index + contents.length + 2 ≤ text.length ∧
        ∀ shorter ∈ contents :: alternativeTexts contents, shorter.length < text.length) ∧
    (closeBracket? opening closing 0 (text.drop (index + 1)) = none →
      ∀ stop, ¬ ClosesAt opening closing text (index + 1) stop) ∧
    (∀ inner place later, compileRound inner text place = some (.next later) →
      place.index < later.index ∧ later.index ≤ text.length) ∧
    (∀ inner, (∀ shorter, shorter.length < text.length → inner shorter = some (compileParts shorter)) →
      ∀ limit, text.length < limit →
        rounds (compileRound inner text) limit ⟨0, [], []⟩ = some (compileParts text)) ∧
    ∀ budget, text.length < budget → compileWithin budget text = some (compileParts text) := by
  refine ⟨fun contents rest closed => ?_, fun missing stop closes => ?_,
    fun _ _ _ => index_of_compileRound, fun _ agrees _ => rounds_compileRound agrees,
    fun _ => compileWithin_eq_some⟩
  · obtain ⟨stop, closes, isContents, isRest⟩ := h.closeBracket?_eq_some_iff.1 closed
    have place : stop + 1 = index + contents.length + 2 := by
      have inside := (List.getElem?_eq_some_iff.1 closes.bracket).1
      have start_le := closes.start_le
      have length := congrArg List.length isContents
      simp only [List.extract_eq_take_drop, List.length_take, List.length_drop] at length
      omega
    refine ⟨stop, closes, fun other closes' => closes'.unique h closes, isContents, place, ?_,
      lengths_of_closeBracket? closed⟩
    rw [isRest, place]
  · rw [h.closeBracket?_eq_some_iff.2 ⟨stop, closes, rfl, rfl⟩] at missing
    cases missing

/-- In `a(b(c)\)d)e`, the bracket at 1 is closed at 9. In `a(b` nothing closes it, and the rounds
come to what the text is compiled to all the same. -/
theorem closeBracket?_closes_nested :
    closeBracket? '(' ')' 0 ("a(b(c)\\)d)e".toList.drop (1 + 1)) = some ("b(c)\\)d".toList, ['e']) ∧
      ClosesAt '(' ')' "a(b(c)\\)d)e".toList (1 + 1) 9 ∧
      (¬ ClosesAt '(' ')' "a(b".toList (1 + 1) 2) ∧
      (0 < 1 ∧ 1 ≤ "a(b".toList.length) ∧
      rounds (compileRound (compileWithin 3) "a(b".toList) 4 ⟨0, [], []⟩ =
        some (compileParts "a(b".toList) ∧
      compileWithin 4 "a(b".toList = some (compileParts "a(b".toList) := by
  have closed : closeBracket? '(' ')' 0 ("a(b(c)\\)d)e".toList.drop (1 + 1)) =
      some ("b(c)\\)d".toList, ['e']) := by decide
  have goes : compileRound (compileWithin 3) "a(b".toList ⟨0, [], []⟩ = some (.next ⟨1, ['a'], []⟩) := rfl
  obtain ⟨-, unclosed, further, agreeing, within⟩ := closeBracket?_closes .round "a(b".toList 1
  refine ⟨closed, ?_, unclosed (by decide) 2, further _ _ _ goes,
    agreeing _ (fun shorter less => compileWithin_eq_some less) 4 (by decide), within 4 (by decide)⟩
  obtain ⟨stop, closes, -, -, place, -⟩ := (closeBracket?_closes .round _ 1).1 _ _ closed
  rwa [show stop = 9 from Nat.succ.inj place] at closes

end Phrasebook
