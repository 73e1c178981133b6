import Phrasebook.Proofs.Grammar.Compiles

/-!
# Grammars written down to be read again

`Grammar.safeText` writes a grammar as `Grammar.text` does, but it puts a backslash in front of a comma
only where the contents of a choice would be divided at it. If the tokens of its literals are neat, a
grammar that was compiled is compiled again from this text: `reprints_of_compiles`.
-/

namespace Phrasebook

open Phrasebook.Text

/-! ## Safe texts -/

mutual

/-- The text of a part, with the commas escaped that would divide a choice. -/
def Part.safeText : Part → List Char
  | .literal tokens _ => tokensText false tokens
  | .argument name => '{' :: name.toList ++ ['}']
  | .optional body => '(' :: Grammar.safeText body ++ [')']
  | .choices alternatives => '[' :: Grammar.safeAlternatives alternatives ++ [']']

/-- The text of a grammar, with the commas escaped that would divide a choice. -/
def Grammar.safeText : List Part → List Char
  | [] => []
  | [part] => part.safeText
  | part :: parts => part.safeText ++ ' ' :: Grammar.safeText parts

/-- The text of alternatives, with the commas escaped that would divide one of them. -/
def Grammar.safeAlternatives : List (List Part) → List Char
  | [] => []
  | [alternative] => escapeOutside 0 (Grammar.safeText alternative)
  | alternative :: alternatives =>
    escapeOutside 0 (Grammar.safeText alternative) ++
      ',' :: ' ' :: Grammar.safeAlternatives alternatives

end

theorem Grammar.safeText_cons_cons (part next : Part) (parts : List Part) :
    Grammar.safeText (part :: next :: parts) =
      part.safeText ++ ' ' :: Grammar.safeText (next :: parts) := by
  rw [Grammar.safeText]
  exact List.cons_ne_nil next parts

theorem Grammar.safeAlternatives_cons_cons (alternative next : List Part)
    (alternatives : List (List Part)) :
    Grammar.safeAlternatives (alternative :: next :: alternatives) =
      escapeOutside 0 (Grammar.safeText alternative) ++
        ',' :: ' ' :: Grammar.safeAlternatives (next :: alternatives) := by
  rw [Grammar.safeAlternatives]
  exact List.cons_ne_nil next alternatives

/-- Parts in front of a bracket, with a blank between them and the bracket. -/
def Grammar.ahead : List Part → List Char
  | [] => []
  | part :: parts => Grammar.safeText (part :: parts) ++ [' ']

/-- Parts behind a bracket, with a blank between the bracket and them. -/
def Grammar.behind : List Part → List Char
  | [] => []
  | part :: parts => ' ' :: Grammar.safeText (part :: parts)

theorem safeText_cons (part : Part) (parts : Grammar) :
    Grammar.safeText (part :: parts) = part.safeText ++ Grammar.behind parts := by
  cases parts with
  | nil => rw [Grammar.safeText, Grammar.behind, List.append_nil]
  | cons next parts => rw [Grammar.safeText_cons_cons, Grammar.behind]

theorem behind_cons (part : Part) (parts : Grammar) :
    Grammar.behind (part :: parts) = ' ' :: (part.safeText ++ Grammar.behind parts) := by
  rw [Grammar.behind, safeText_cons]

theorem safeText_append_cons (parts : Grammar) (part : Part) (more : Grammar) :
    Grammar.safeText (parts ++ part :: more) =
      Grammar.ahead parts ++ (part.safeText ++ Grammar.behind more) := by
  induction parts with
  | nil => exact safeText_cons part more
  | cons first parts ih =>
    rw [List.cons_append, safeText_cons, Grammar.ahead, safeText_cons]
    cases parts with
    | nil =>
      have none : Grammar.behind [] = [] := rfl
      rw [List.nil_append, behind_cons, none, List.append_nil, List.append_assoc,
        List.singleton_append]
    | cons next parts =>
      rw [List.cons_append] at ih
      rw [List.cons_append, Grammar.behind, ih, Grammar.behind, Grammar.ahead]
      simp only [List.append_assoc, List.cons_append, List.nil_append]

/-- The parts of a plain text have nothing to escape. -/
theorem safeText_of_literalParts {front : List Char} {parts : Grammar}
    (h : literalParts front = .ok parts) :
    Grammar.safeText parts = Grammar.text false parts := by
  rcases cases_of_literalParts h with ⟨-, rfl⟩ | ⟨tokens, -, rfl⟩
  · rfl
  · rw [Grammar.safeText, Grammar.text, Part.safeText, Part.text]

/-! ## Pieces of a choice -/

/-- The pieces of a choice: its alternatives, with a blank in front of all but the first. -/
def writtenPieces : List Grammar → List (List Char)
  | [] => []
  | alternative :: alternatives =>
    Grammar.safeText alternative :: alternatives.map fun other => ' ' :: Grammar.safeText other

theorem joinPieces_blank (text : List Char) (pieces : List (List Char)) :
    joinPieces 0 ((' ' :: text) :: pieces) = ' ' :: joinPieces 0 (text :: pieces) := by
  have step : escapeOutside 0 (' ' :: text) = ' ' :: escapeOutside 0 text :=
    escapeOutside_bare (by decide) (by decide) text
  cases pieces with
  | nil => exact step
  | cons next more => rw [joinPieces, joinPieces, step, List.cons_append]

theorem joinPieces_writtenPieces (alternatives : List Grammar) :
    joinPieces 0 (writtenPieces alternatives) = Grammar.safeAlternatives alternatives := by
  induction alternatives with
  | nil => rfl
  | cons alternative alternatives ih =>
    cases alternatives with
    | nil => rw [Grammar.safeAlternatives]; rfl
    | cons next more =>
      rw [writtenPieces, List.map_cons, joinPieces, joinPieces_blank,
        Grammar.safeAlternatives_cons_cons, ← ih, writtenPieces]

theorem map_trimUnescaped_writtenPieces (alternatives : List Grammar) :
    (writtenPieces alternatives).map trimUnescaped =
      alternatives.map fun alternative => trimUnescaped (Grammar.safeText alternative) := by
  cases alternatives with
  | nil => rfl
  | cons alternative alternatives =>
    rw [writtenPieces, List.map_cons, List.map_cons, List.map_map]
    refine congrArg _ (List.map_congr_left fun other _ => ?_)
    exact trimUnescaped_cons_blank (by decide) _

/-! ## Reading safe texts -/

/-- The safe text of a grammar can stand for the text that it was compiled from. -/
structure Reprints (text : List Char) (grammar : Grammar) : Prop where
  thinner : Thinner (marks (Grammar.safeText grammar)) (marks text)
  compiles : Compiles (Grammar.safeText grammar) grammar
  neat : Neat (Grammar.safeText grammar)
  starts : ∀ c ∈ (Grammar.safeText grammar).head?, isBlank c = false
  nonempty : grammar ≠ [] → Grammar.safeText grammar ≠ []

theorem marks_bracketText {opening closing : Char} (h : Matching opening closing)
    {front contents : List Char} (isFront : Paired front) (isContents : Paired contents)
    (rest : List Char) :
    marks (bracketText front opening contents closing rest) =
      marks front ++ (bareMark opening ++ (marks contents ++ (bareMark closing ++ marks rest))) := by
  rw [bracketText, isFront.marks_append, marks_bare h.plain.1, isContents.marks_append,
    marks_bare h.plain.2]

/-- The safe text of a part whose contents are replaced by thinner ones. -/
structure Rewritten (opening closing : Char) (contents new : List Char) : Prop where
  matching : Matching opening closing
  encloses : Encloses opening closing contents
  paired : Paired new
  thinner : Thinner (marks new) (marks contents)

theorem Rewritten.encloses_new {opening closing : Char} {contents new : List Char}
    (h : Rewritten opening closing contents new) : Encloses opening closing new :=
  ⟨h.paired, by rw [h.thinner.level?_eq, h.encloses.2]⟩

section

variable {front contents rest new : List Char} {opening closing : Char} {parts more : Grammar}
  {part : Part}

theorem marks_ahead (reread : Reread front parts)
    (same : Grammar.safeText parts = Grammar.text false parts) :
    Paired (Grammar.ahead parts) ∧ marks (Grammar.ahead parts) = marks front ∧
      literalParts (Grammar.ahead parts) = .ok parts := by
  cases parts with
  | nil => exact ⟨.nil, reread.marks_eq, reread.again [] rfl⟩
  | cons first parts =>
    have blank : ∀ c ∈ [' '], isBlank c = true := List.forall_mem_singleton.2 (by decide)
    have trimmed := @trimUnescaped_of_neat [] _ [' '] (by simp) blank reread.starts reread.neat
    rw [Grammar.ahead, same]
    refine ⟨reread.neat.1.append (paired_of_blank blank), ?_, reread.again _ trimmed⟩
    rw [reread.neat.1.marks_append, marks_of_blank blank, List.append_nil, reread.marks_eq]

theorem marks_behind (reprints : Reprints rest more) :
    Paired (Grammar.behind more) ∧
      Thinner (marks (Grammar.behind more)) (marks rest) ∧ Compiles (Grammar.behind more) more := by
  cases more with
  | nil => exact ⟨.nil, reprints.thinner, reprints.compiles⟩
  | cons first more =>
    have plain : ' ' ≠ '\\' := by decide
    rw [Grammar.behind]
    refine ⟨.bare plain reprints.neat.1, ?_, (compiles_cons_blank (by decide)).2 reprints.compiles⟩
    rw [marks_bare plain, bareMark_of_isBlank (by decide), List.nil_append]
    exact reprints.thinner

theorem neat_behind (matching : Matching opening closing) (reprints : Reprints rest more) :
    Neat (closing :: Grammar.behind more) := by
  cases more with
  | nil => exact neat_bare .nil matching.plain.2 (by cases matching <;> decide)
  | cons first more =>
    have isFront : Paired [closing, ' '] := .bare matching.plain.2 (.bare (by decide) .nil)
    have some := reprints.nonempty (List.cons_ne_nil first more)
    exact Neat.append isFront reprints.neat some

/-- **A bracket.** If the contents of a bracket are replaced by thinner ones, and the text behind it by
its safe text, the whole is the safe text of its grammar. -/
theorem reprints_bracketText (plain : Plain front) (literal : literalParts front = .ok parts)
    (each : ∀ token ∈ Grammar.literalWords parts, Neat token.toList)
    (rewritten : Rewritten opening closing contents new)
    (spelled : part.safeText = opening :: new ++ [closing])
    (reprints : Reprints rest more)
    (compiles : ∀ {front rest}, Plain front → literalParts front = .ok parts → Compiles rest more →
      Compiles (bracketText front opening new closing rest) (parts ++ part :: more)) :
    Reprints (bracketText front opening contents closing rest) (parts ++ part :: more) := by
  obtain ⟨matching, encloses, isNew, thinner⟩ := rewritten
  have same := safeText_of_literalParts literal
  have reread := reread_literalParts plain.1 literal each
  obtain ⟨isAhead, aheadMarks, aheadLiteral⟩ := marks_ahead reread same
  obtain ⟨isBehind, behindMarks, behindCompiles⟩ := marks_behind reprints
  have whole : Grammar.safeText (parts ++ part :: more) =
      bracketText (Grammar.ahead parts) opening new closing (Grammar.behind more) := by
    rw [safeText_append_cons, spelled, bracketText, List.cons_append, List.cons_append,
      List.append_assoc, List.singleton_append]
  constructor
  all_goals rw [whole]
  case thinner =>
    rw [marks_bracketText matching isAhead isNew, marks_bracketText matching plain.1 encloses.1,
      aheadMarks]
    refine (Thinner.refl _).append ((Thinner.refl _).append (thinner.append ?_))
    exact (Thinner.refl _).append behindMarks
  case compiles =>
    refine compiles ⟨isAhead, ?_⟩ aheadLiteral behindCompiles
    rw [aheadMarks]
    exact plain.2
  case neat =>
    have inner := Neat.append isNew (neat_behind matching reprints) (List.cons_ne_nil _ _)
    have isFront : Paired (Grammar.ahead parts ++ [opening]) :=
      isAhead.append (.bare matching.plain.1 .nil)
    have joined := Neat.append isFront inner (by simp)
    rw [List.append_assoc] at joined
    exact joined
  case starts =>
    intro c member
    cases parts with
    | nil =>
      cases member
      cases matching <;> decide
    | cons first parts =>
      have some := reread.nonempty (List.cons_ne_nil first parts)
      apply reread.starts c
      rw [bracketText, Grammar.ahead, same] at member
      cases written : Grammar.text false (first :: parts) with
      | nil => exact absurd written some
      | cons d text =>
        rw [written] at member
        exact member
  case nonempty =>
    intro _
    simp [bracketText]

theorem reprints_literal (plain : Plain front) (literal : literalParts front = .ok parts)
    (each : ∀ token ∈ Grammar.literalWords parts, Neat token.toList) : Reprints front parts := by
  have reread := reread_literalParts plain.1 literal each
  have same := safeText_of_literalParts literal
  have isPlain : Plain (Grammar.text false parts) := by
    refine ⟨reread.neat.1, ?_⟩
    rw [reread.marks_eq]
    exact plain.2
  have trimmed := trimUnescaped_self reread.starts reread.neat
  constructor
  all_goals rw [same]
  · rw [reread.marks_eq]
    exact .refl _
  · exact .literal isPlain (reread.again _ trimmed)
  · exact reread.neat
  · exact reread.starts
  · exact reread.nonempty

end

/-! ## Choices -/

/-- An alternative and the text that it was compiled from. -/
def ReprintsAlternative (text : List Char) (alternative : Grammar) : Prop :=
  Reprints text alternative ∧ alternative ≠ []

theorem replaces_writtenPieces {texts : List (List Char)} {alternatives : List Grammar}
    (h : List.Forall₂ ReprintsAlternative texts alternatives) :
    List.Forall₂ Replaces texts (writtenPieces alternatives) := by
  cases h with
  | nil => exact .nil
  | @cons text alternative texts alternatives first others =>
    refine .cons ⟨first.1.neat.1, first.1.thinner⟩ ?_
    rw [List.forall₂_map_right_iff]
    refine others.imp fun text other ⟨reprints, _⟩ => ?_
    have plain : ' ' ≠ '\\' := by decide
    refine ⟨.bare plain reprints.neat.1, ?_⟩
    rw [marks_bare plain, bareMark_of_isBlank (by decide), List.nil_append]
    exact reprints.thinner

theorem tidy_alternatives {texts : List (List Char)} {alternatives : List Grammar}
    (h : List.Forall₂ ReprintsAlternative texts alternatives) :
    ∀ alternative ∈ alternatives, Tidy (Grammar.safeText alternative) := by
  induction h with
  | nil => intro alternative member; cases member
  | cons first _ ih =>
    obtain ⟨reprints, some⟩ := first
    exact List.forall_mem_cons.2 ⟨⟨reprints.nonempty some, reprints.starts, reprints.neat⟩, ih⟩

/-- Nothing is trimmed away from the safe texts of alternatives. -/
theorem trimmed_alternatives {alternatives : List Grammar}
    (tidy : ∀ alternative ∈ alternatives, Tidy (Grammar.safeText alternative)) :
    ((writtenPieces alternatives).map trimUnescaped).filter (fun piece => !piece.isEmpty) =
      alternatives.map Grammar.safeText := by
  have each : alternatives.map (fun alternative => trimUnescaped (Grammar.safeText alternative)) =
      alternatives.map Grammar.safeText :=
    List.map_congr_left fun alternative member => (tidy alternative member).trimUnescaped_eq
  rw [map_trimUnescaped_writtenPieces, each, List.filter_eq_self]
  intro piece member
  obtain ⟨alternative, isAlternative, rfl⟩ := List.mem_map.1 member
  simpa using (tidy alternative isAlternative).nonempty

theorem compiles_alternatives {texts : List (List Char)} {alternatives : List Grammar}
    (h : List.Forall₂ ReprintsAlternative texts alternatives) :
    List.Forall₂ Compiles (alternatives.map Grammar.safeText) alternatives := by
  induction h with
  | nil => exact .nil
  | cons first _ ih => exact .cons first.1.compiles ih

/-- The safe text of a choice is divided into the safe texts of its alternatives. -/
theorem rewritten_alternatives {contents : List Char} {alternatives : List Grammar}
    (encloses : Encloses '[' ']' contents) (some : alternatives ≠ [])
    (h : List.Forall₂ ReprintsAlternative (alternativeTexts contents) alternatives) :
    Rewritten '[' ']' contents (Grammar.safeAlternatives alternatives) ∧
      alternativeTexts (Grammar.safeAlternatives alternatives) =
        alternatives.map Grammar.safeText := by
  obtain ⟨isPieces, joined⟩ := pieces_splitChoices encloses.1 0
  obtain ⟨isWritten, thinner⟩ := thinner_joinPieces isPieces (replaces_writtenPieces h)
  have more : writtenPieces alternatives ≠ [] := by
    cases alternatives with
    | nil => exact absurd rfl some
    | cons alternative alternatives => exact List.cons_ne_nil _ _
  have paired := (isWritten more).paired_joinPieces
  have divided := splitChoices_joinPieces (isWritten more)
  rw [joined, joinPieces_writtenPieces] at thinner
  rw [joinPieces_writtenPieces] at paired divided
  refine ⟨⟨.square, encloses, paired, thinner⟩, ?_⟩
  rw [alternativeTexts, divided, trimmed_alternatives (tidy_alternatives h)]

/-! ## Whole grammars -/

/-- **Safe texts.** A grammar with neat tokens is compiled again from its safe text. -/
theorem reprints_of_compiles {text : List Char} {grammar : Grammar} (h : Compiles text grammar)
    (each : ∀ token ∈ Grammar.literalWords grammar, Neat token.toList) : Reprints text grammar := by
  induction h with
  | literal plain literal => exact reprints_literal plain literal each
  | @optional front contents rest parts body more plain literal encloses _ some _ ih ih' =>
    rw [literalWords_append, List.forall_mem_append, Grammar.literalWords, List.forall_mem_append,
      Part.literalWords] at each
    obtain ⟨inFront, inside, later⟩ := each
    have reprints := ih inside
    have rewritten : Rewritten '(' ')' contents (Grammar.safeText body) :=
      ⟨.round, encloses, reprints.neat.1, reprints.thinner⟩
    refine reprints_bracketText plain literal inFront rewritten (by rw [Part.safeText]) (ih' later) ?_
    intro front rest plain literal behind
    exact .optional plain literal rewritten.encloses_new reprints.compiles some behind
  | @argument front contents rest parts more plain literal encloses noBrace some _ ih =>
    rw [literalWords_append, List.forall_mem_append, Grammar.literalWords, List.forall_mem_append] at each
    obtain ⟨inFront, -, later⟩ := each
    have rewritten : Rewritten '{' '}' contents contents :=
      ⟨.brace, encloses, encloses.1, .refl _⟩
    refine reprints_bracketText plain literal inFront rewritten
      (by rw [Part.safeText, String.toList_ofList]) (ih later) ?_
    intro front rest plain literal behind
    exact .argument plain literal encloses noBrace some behind
  | @choices front contents rest parts alternatives more plain literal encloses length each' some _
      ih ih' =>
    rw [literalWords_append, List.forall_mem_append, Grammar.literalWords, List.forall_mem_append,
      Part.literalWords] at each
    obtain ⟨inFront, inside, later⟩ := each
    have all : List.Forall₂ ReprintsAlternative (alternativeTexts contents) alternatives := by
      refine List.forall₂_iff_zip.2 ⟨length, fun {text alternative} member => ?_⟩
      obtain ⟨isText, isAlternative⟩ := List.of_mem_zip member
      obtain ⟨neat, solid, starts⟩ := neat_alternativeTexts encloses.1 isText
      refine ⟨ih text alternative member fun token word => ?_,
        (each' text alternative member).ne_nil starts neat solid⟩
      exact inside token (mem_alternativeWords isAlternative word)
    obtain ⟨rewritten, divided⟩ := rewritten_alternatives encloses some all
    refine reprints_bracketText plain literal inFront rewritten (by rw [Part.safeText]) (ih' later) ?_
    intro front rest plain literal behind
    obtain ⟨count, compiled⟩ := List.forall₂_iff_zip.1 (compiles_alternatives all)
    rw [← divided] at count compiled
    exact .choices plain literal rewritten.encloses_new count (fun _ _ member => compiled member) some
      behind

end Phrasebook
