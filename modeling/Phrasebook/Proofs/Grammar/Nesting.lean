import Mathlib.Algebra.Group.Defs
import Phrasebook.Proofs.Grammar.Compiles

/-!
# Brackets counted by a stack

The compiler cuts a bracket out by counting brackets of its kind, and leaves it to the contents to be in
order. `Nesting.scan?` reads a text once instead, with a stack of the brackets that are open: one that closes
has to close the innermost one, and what stands in the braces of a name is passed over. It knows no commas,
no literals and no grammar, but it accepts every text that compiles, and sees each group that the grammar
has (`Compiles.accepts`). So a format string with brackets that cross is never compiled, at whatever depth
they cross.
-/

namespace Phrasebook

open Phrasebook.Text

/-! ## Groups -/

/-- How many groups of each kind there are. -/
@[ext]
structure Tally where
  optionals : Nat
  choices : Nat
  arguments : Nat
  deriving DecidableEq, Repr

namespace Tally

instance : Zero Tally where
  zero := ⟨0, 0, 0⟩

instance : Add Tally where
  add some more :=
    ⟨some.optionals + more.optionals, some.choices + more.choices, some.arguments + more.arguments⟩

instance : AddMonoid Tally where
  add_assoc _ _ _ := Tally.ext (Nat.add_assoc _ _ _) (Nat.add_assoc _ _ _) (Nat.add_assoc _ _ _)
  zero_add _ := Tally.ext (Nat.zero_add _) (Nat.zero_add _) (Nat.zero_add _)
  add_zero _ := rfl
  nsmul := nsmulRec

end Tally

mutual

/-- The groups in a part, with the part itself. -/
def Part.tally : Part → Tally
  | .literal _ _ => 0
  | .argument _ => ⟨0, 0, 1⟩
  | .optional body => ⟨1, 0, 0⟩ + Grammar.tally body
  | .choices alternatives => ⟨0, 1, 0⟩ + Grammar.alternativesTally alternatives

/-- The groups in a grammar, at every depth. -/
def Grammar.tally : List Part → Tally
  | [] => 0
  | part :: parts => part.tally + Grammar.tally parts

/-- The groups in alternatives. -/
def Grammar.alternativesTally : List (List Part) → Tally
  | [] => 0
  | alternative :: alternatives =>
    Grammar.tally alternative + Grammar.alternativesTally alternatives

end

theorem tally_append (parts more : Grammar) :
    Grammar.tally (parts ++ more) = Grammar.tally parts + Grammar.tally more := by
  induction parts with
  | nil => exact (zero_add _).symm
  | cons part parts ih => rw [List.cons_append, Grammar.tally, Grammar.tally, ih, add_assoc]

theorem tally_of_literalParts {front : List Char} {parts : Grammar}
    (h : literalParts front = .ok parts) : Grammar.tally parts = 0 := by
  rcases cases_of_literalParts h with ⟨-, rfl⟩ | ⟨tokens, -, rfl⟩ <;> rfl

/-! ## The scanner -/

/-- What is known behind a text: the brackets that are open, the innermost one first, whether a name has
begun and not ended, and the groups that were seen. -/
structure Nesting where
  opened : List Char
  inName : Bool
  seen : Tally
  deriving DecidableEq, Repr

namespace Nesting

/-- What is known in front of a text. -/
def start : Nesting :=
  ⟨[], false, 0⟩

/-- A bracket of a group opens. -/
def enter (s : Nesting) (opening : Char) (group : Tally) : Nesting :=
  { s with opened := opening :: s.opened, seen := s.seen + group }

/-- A name begins. -/
def enterName (s : Nesting) : Nesting :=
  { s with inName := true, seen := s.seen + ⟨0, 0, 1⟩ }

/-- The innermost bracket is closed, if it is of the kind that `opening` opens. -/
def leave? (s : Nesting) (opening : Char) : Option Nesting :=
  match s.opened with
  | [] => none
  | innermost :: outer => if innermost = opening then some { s with opened := outer } else none

/-- One more character outside of names. A brace that closes has nothing to close there. -/
def stepOutside? (s : Nesting) : Char → Option Nesting
  | '(' => some (s.enter '(' ⟨1, 0, 0⟩)
  | '[' => some (s.enter '[' ⟨0, 1, 0⟩)
  | '{' => some s.enterName
  | ')' => s.leave? '('
  | ']' => s.leave? '['
  | '}' => none
  | _ => some s

/-- One more character. In a name, only a brace that closes is of interest. -/
def step? (s : Nesting) (c : Char) : Option Nesting :=
  if s.inName then some { s with inName := c ≠ '}' } else s.stepOutside? c

/-- Reads a text once from its start to its end. A backslash is passed over together with the character
behind it, which must be there. -/
def scan? : Nesting → List Char → Option Nesting
  | s, [] => some s
  | s, [c] => if c = '\\' then none else s.step? c
  | s, c :: d :: text =>
    if c = '\\' then scan? s text else (s.step? c).bind fun s => scan? s (d :: text)

/-- The same with more brackets open around it and more groups seen in front of it. -/
def below (s : Nesting) (outer : List Char) (before : Tally) : Nesting :=
  ⟨s.opened ++ outer, s.inName, before + s.seen⟩

/-! ## Steps -/

theorem scan?_bare {c : Char} (plain : c ≠ '\\') (s : Nesting) (text : List Char) :
    s.scan? (c :: text) = (s.step? c).bind fun s => s.scan? text := by
  cases text with
  | nil =>
    rw [scan?, if_neg plain]
    cases s.step? c <;> rfl
  | cons d text => rw [scan?, if_neg plain]

theorem scan?_escaped (s : Nesting) (c : Char) (text : List Char) :
    s.scan? ('\\' :: c :: text) = s.scan? text := by
  rw [scan?, if_pos rfl]

/-- What is no bracket changes nothing. -/
theorem stepOutside?_of_not_isBracket {c : Char} (h : isBracket c = false) (s : Nesting) :
    s.stepOutside? c = some s := by
  fun_cases stepOutside? s c with
  | case7 => rfl
  | _ => cases h

theorem step?_of_inName {s : Nesting} (named : s.inName = true) {c : Char} (other : c ≠ '}') :
    s.step? c = some s := by
  obtain ⟨opened, inName, seen⟩ := s
  cases named
  simp [step?, other]

theorem step?_of_not_isBracket {c : Char} (h : isBracket c = false) (s : Nesting) :
    s.step? c = some s := by
  cases named : s.inName with
  | true =>
    refine step?_of_inName named ?_
    rintro rfl
    cases h
  | false =>
    rw [step?, if_neg (by simp [named])]
    exact stepOutside?_of_not_isBracket h s

theorem enter_below (s : Nesting) (opening : Char) (group : Tally) (outer : List Char)
    (before : Tally) :
    (s.below outer before).enter opening group = (s.enter opening group).below outer before := by
  simp [enter, below, add_assoc]

theorem enterName_below (s : Nesting) (outer : List Char) (before : Tally) :
    (s.below outer before).enterName = s.enterName.below outer before := by
  simp [enterName, below, add_assoc]

theorem leave?_below {s s' : Nesting} {opening : Char} (h : s.leave? opening = some s')
    (outer : List Char) (before : Tally) :
    (s.below outer before).leave? opening = some (s'.below outer before) := by
  obtain ⟨opened, inName, seen⟩ := s
  cases opened with
  | nil => cases h
  | cons innermost others =>
    simp only [leave?] at h
    split at h
    · next same =>
      cases h
      exact if_pos same
    · cases h

theorem stepOutside?_below {s s' : Nesting} {c : Char} (h : s.stepOutside? c = some s')
    (outer : List Char) (before : Tally) :
    (s.below outer before).stepOutside? c = some (s'.below outer before) := by
  cases bracket : isBracket c with
  | false =>
    rw [stepOutside?_of_not_isBracket bracket] at h ⊢
    rw [Option.some.inj h]
  | true =>
    simp only [isBracket, opensBracket, closesBracket, Bool.or_eq_true, decide_eq_true_eq] at bracket
    rcases bracket with ((rfl | rfl) | rfl) | ((rfl | rfl) | rfl)
    · cases h
      exact congrArg some (enter_below s _ _ outer before)
    · cases h
      exact congrArg some (enterName_below s outer before)
    · cases h
      exact congrArg some (enter_below s _ _ outer before)
    · exact leave?_below h outer before
    · cases h
    · exact leave?_below h outer before

/-- A step does not look below the brackets that are open. -/
theorem step?_below {s s' : Nesting} {c : Char} (h : s.step? c = some s') (outer : List Char)
    (before : Tally) : (s.below outer before).step? c = some (s'.below outer before) := by
  rw [step?] at h
  split at h
  · next named =>
    cases h
    exact if_pos named
  · next outside =>
    have same : (s.below outer before).inName = s.inName := rfl
    rw [step?, same, if_neg outside]
    exact stepOutside?_below h outer before

/-! ## Texts -/

/-- A text that can be scanned does not end with half an escape. -/
theorem paired_of_scan? {s s' : Nesting} {text : List Char} (h : s.scan? text = some s') :
    Paired text := by
  fun_induction scan? s text with
  | case1 => exact .nil
  | case2 => cases h
  | case3 s c plain => exact .bare plain .nil
  | case4 s d text ih => exact .escaped (ih h)
  | case5 s c d text plain ih =>
    obtain ⟨later, -, scanned⟩ := Option.bind_eq_some_iff.1 h
    exact .bare plain (ih later scanned)

theorem scan?_append {front : List Char} (h : Paired front) (s : Nesting) (back : List Char) :
    s.scan? (front ++ back) = (s.scan? front).bind fun s => s.scan? back := by
  induction h generalizing s with
  | nil => rfl
  | bare plain _ ih =>
    rw [List.cons_append, scan?_bare plain, scan?_bare plain, Option.bind_assoc]
    simp only [ih]
  | escaped _ ih => rw [List.cons_append, List.cons_append, scan?_escaped, scan?_escaped, ih]

theorem scan?_append_of_eq_some {s s' : Nesting} {front : List Char} (h : s.scan? front = some s')
    (back : List Char) : s.scan? (front ++ back) = s'.scan? back := by
  rw [scan?_append (paired_of_scan? h), h]
  rfl

/-- A scan does not look below the brackets that are open where it begins. -/
theorem scan?_below {s s' : Nesting} {text : List Char} (h : s.scan? text = some s')
    (outer : List Char) (before : Tally) :
    (s.below outer before).scan? text = some (s'.below outer before) := by
  induction paired_of_scan? h generalizing s with
  | nil =>
    cases h
    rfl
  | bare plain _ ih =>
    rw [scan?_bare plain] at h ⊢
    obtain ⟨later, step, scanned⟩ := Option.bind_eq_some_iff.1 h
    rw [step?_below step]
    exact ih scanned
  | escaped _ ih =>
    rw [scan?_escaped] at h ⊢
    exact ih h

/-- A text changes nothing if none of its bare brackets does. -/
theorem scan?_eq_self {text : List Char} (h : Paired text) {s : Nesting}
    (each : ∀ c, Mark.bracket c ∈ marks text → s.step? c = some s) : s.scan? text = some s := by
  induction h with
  | nil => rfl
  | @bare c text plain _ ih =>
    rw [marks_bare plain] at each
    have own : s.step? c = some s := by
      cases bracket : isBracket c with
      | false => exact step?_of_not_isBracket bracket s
      | true => exact each c (List.mem_append_left _ (bracket_mem_bareMark bracket))
    rw [scan?_bare plain, own]
    exact ih fun d member => each d (List.mem_append_right _ member)
  | escaped _ ih =>
    rw [marks_escaped] at each
    rw [scan?_escaped]
    exact ih fun d member => each d (List.mem_append_right _ member)

theorem scan?_plain {text : List Char} (h : Plain text) (s : Nesting) : s.scan? text = some s :=
  scan?_eq_self h.1 fun c member => absurd member (h.2 c)

/-- A name goes on as long as no bare brace closes. -/
theorem scan?_name {contents : List Char} (h : Paired contents)
    (noClosing : Mark.bracket '}' ∉ marks contents) {s : Nesting} (named : s.inName = true) :
    s.scan? contents = some s := by
  refine scan?_eq_self h fun c member => step?_of_inName named ?_
  rintro rfl
  exact noClosing member

/-! ## Choices -/

theorem scan?_trimUnescaped {text : List Char} (h : Paired text) (s : Nesting) :
    s.scan? (trimUnescaped text) = s.scan? text := by
  obtain ⟨front, back, equal, inFront, inBack, -, neat⟩ := exists_trimUnescaped h
  rw [congrArg s.scan? equal, scan?_append_of_eq_some (scan?_plain (plain_blanks inFront) s),
    scan?_append neat.1]
  simp only [scan?_plain (plain_blanks inBack), Option.bind_fun_some]

/-- Backslashes in front of commas change nothing. -/
theorem scan?_escapeOutside {text : List Char} (h : Paired text) (depth : Nat) (s : Nesting) :
    s.scan? (escapeOutside depth text) = s.scan? text := by
  induction h generalizing depth s with
  | nil => rfl
  | @bare c text plain _ ih =>
    by_cases outside : c = ',' ∧ depth = 0
    · obtain ⟨rfl, rfl⟩ := outside
      rw [escapeOutside_comma, scan?_escaped, scan?_bare plain, step?_of_not_isBracket (by decide), ih]
      rfl
    · rw [escapeOutside_bare plain outside, scan?_bare plain, scan?_bare plain]
      simp only [ih]
  | escaped _ ih => rw [escapeOutside_escaped, scan?_escaped, scan?_escaped, ih]

/-- Joined pieces are scanned one after another. -/
theorem scan?_joinPieces {depth : Nat} {pieces : List (List Char)} (h : Pieces depth pieces)
    (s : Nesting) : s.scan? (joinPieces depth pieces) = pieces.foldlM scan? s := by
  induction h generalizing s with
  | @last depth piece paired _ =>
    rw [joinPieces, scan?_escapeOutside paired]
    cases found : s.scan? piece <;> simp [found]
  | @cons depth piece next more paired _ _ _ ih =>
    have comma : ∀ s : Nesting, ∀ text, s.scan? (',' :: text) = s.scan? text := by
      intro s text
      rw [scan?_bare (by decide), step?_of_not_isBracket (by decide)]
      rfl
    rw [joinPieces, scan?_append (paired.escapeOutside depth), scan?_escapeOutside paired,
      List.foldlM_cons]
    simp only [comma, ih]
    rfl

/-- The contents of a choice are scanned like its alternatives, one after another. -/
theorem scan?_contents {contents : List Char} (h : Paired contents) (s : Nesting) :
    s.scan? contents = (alternativeTexts contents).foldlM scan? s := by
  obtain ⟨isPieces, joined⟩ := pieces_splitChoices h 0
  have trimmed : ∀ {pieces : List (List Char)}, (∀ piece ∈ pieces, Paired piece) → ∀ s : Nesting,
      ((pieces.map trimUnescaped).filter fun piece => !piece.isEmpty).foldlM scan? s =
        pieces.foldlM scan? s := by
    intro pieces each
    induction pieces with
    | nil => exact fun _ => rfl
    | cons piece pieces ih =>
      obtain ⟨paired, later⟩ := List.forall_mem_cons.1 each
      intro s
      rw [List.map_cons, List.filter_cons, List.foldlM_cons, ← scan?_trimUnescaped paired]
      cases trimUnescaped piece with
      -- A blank piece, which is left out, would have changed nothing.
      | nil => exact ih later s
      | cons c text =>
        rw [List.isEmpty_cons, Bool.not_false, if_pos rfl, List.foldlM_cons]
        simp only [ih later]
  rw [alternativeTexts, trimmed isPieces.paired, ← scan?_joinPieces isPieces, joined]

end Nesting

/-! ## Accepted texts -/

/-- A text is accepted, with the groups in it: no bracket is open behind it, and no name goes on. -/
def Accepts (text : List Char) (groups : Tally) : Prop :=
  Nesting.start.scan? text = some ⟨[], false, groups⟩

/-- Outside of names, an accepted text adds its groups and leaves the open brackets alone. -/
theorem Accepts.scan?_eq {text : List Char} {groups : Tally} (h : Accepts text groups) {s : Nesting}
    (outside : s.inName = false) : s.scan? text = some { s with seen := s.seen + groups } := by
  obtain ⟨opened, inName, seen⟩ := s
  cases outside
  have whole := Nesting.scan?_below h opened seen
  simpa only [Nesting.below, Nesting.start, List.nil_append, add_zero] using whole

theorem Accepts.append {front back : List Char} {groups more : Tally} (h : Accepts front groups)
    (h' : Accepts back more) : Accepts (front ++ back) (groups + more) := by
  rw [Accepts, Nesting.scan?_append_of_eq_some h]
  exact h'.scan?_eq rfl

theorem Plain.accepts {text : List Char} (h : Plain text) : Accepts text 0 :=
  Nesting.scan?_plain h _

/-- The brackets that are kept on the stack, with the group that they are around. -/
inductive Stacked : Char → Char → Tally → Prop
  | round : Stacked '(' ')' ⟨1, 0, 0⟩
  | square : Stacked '[' ']' ⟨0, 1, 0⟩

theorem Stacked.matching {opening closing : Char} {group : Tally} (h : Stacked opening closing group) :
    Matching opening closing := by
  cases h with
  | round => exact .round
  | square => exact .square

section

variable {front contents rest : List Char} {s : Nesting} {inside : Tally}

/-- Behind a bracket that opens and accepted text, the bracket is the innermost one. -/
theorem Accepts.scan?_opened {opening closing : Char} {group : Tally}
    (kind : Stacked opening closing group) (h : Accepts contents inside) (outside : s.inName = false)
    (back : List Char) :
    s.scan? (opening :: (contents ++ back)) =
      Nesting.scan? ⟨opening :: s.opened, false, s.seen + group + inside⟩ back := by
  have opened : s.step? opening = some (s.enter opening group) := by
    cases kind <;> simp [Nesting.step?, outside, Nesting.stepOutside?]
  have stays : (s.enter opening group).inName = false := outside
  rw [Nesting.scan?_bare kind.matching.plain.1, opened, Option.bind_some,
    Nesting.scan?_append_of_eq_some (h.scan?_eq stays), stays]
  rfl

/-- A bracket is accepted with its group and what is in it. -/
theorem Accepts.bracket {opening closing : Char} {group : Tally}
    (kind : Stacked opening closing group) (h : Accepts contents inside) :
    Accepts (opening :: (contents ++ [closing])) (group + inside) := by
  have closed : Nesting.step? ⟨[opening], false, 0 + group + inside⟩ closing =
      some ⟨[], false, group + inside⟩ := by
    cases kind <;> simp [Nesting.step?, Nesting.stepOutside?, Nesting.leave?]
  rw [Accepts, h.scan?_opened kind rfl, Nesting.scan?_bare kind.matching.plain.2]
  exact congrArg (Option.bind · _) closed

/-- Braces are accepted as a name, whatever other brackets it holds. -/
theorem accepts_braces (paired : Paired contents) (noClosing : Mark.bracket '}' ∉ marks contents) :
    Accepts ('{' :: (contents ++ ['}'])) ⟨0, 0, 1⟩ := by
  have opened : Nesting.start.step? '{' = some Nesting.start.enterName := rfl
  rw [Accepts, Nesting.scan?_bare (by decide), opened, Option.bind_some,
    Nesting.scan?_append_of_eq_some (Nesting.scan?_name paired noClosing rfl)]
  rfl

end

/-! ## Compiled texts -/

theorem accepts_bracketText {front contents rest : List Char} {opening closing : Char}
    {parts more : Grammar} {part : Part} (plain : Plain front)
    (literal : literalParts front = .ok parts)
    (h : Accepts (opening :: (contents ++ [closing])) part.tally)
    (later : Accepts rest (Grammar.tally more)) :
    Accepts (bracketText front opening contents closing rest)
      (Grammar.tally (parts ++ part :: more)) := by
  have whole := plain.accepts.append (h.append later)
  rw [zero_add, List.cons_append, List.append_assoc, List.singleton_append] at whole
  rwa [tally_append, tally_of_literalParts literal, zero_add, Grammar.tally]

theorem foldlM_scan? {texts : List (List Char)} {alternatives : List Grammar}
    (h : List.Forall₂ (fun text alternative => Accepts text (Grammar.tally alternative)) texts
      alternatives) {s : Nesting} (outside : s.inName = false) :
    texts.foldlM Nesting.scan? s =
      some { s with seen := s.seen + Grammar.alternativesTally alternatives } := by
  induction h generalizing s with
  | nil => rw [Grammar.alternativesTally, add_zero, List.foldlM_nil]; rfl
  | cons first _ ih =>
    rw [List.foldlM_cons, first.scan?_eq outside, Grammar.alternativesTally, ← add_assoc]
    exact ih outside

/-- Text that compiles is accepted, with the groups of its grammar. -/
theorem Compiles.accepts {text : List Char} {grammar : Grammar} (h : Compiles text grammar) :
    Accepts text (Grammar.tally grammar) := by
  induction h with
  | literal plain literal =>
    rw [tally_of_literalParts literal]
    exact plain.accepts
  | optional plain literal _ _ _ _ ih ih' =>
    exact accepts_bracketText plain literal (ih.bracket .round) ih'
  | argument plain literal encloses noBrace _ _ ih =>
    -- No brace opens in the name, so the one that closes it is the first.
    exact accepts_bracketText plain literal
      (accepts_braces encloses.1 (encloses.closing_notMem noBrace)) ih
  | @choices _ contents _ _ alternatives _ plain literal encloses length _ _ _ ih ih' =>
    have all : List.Forall₂ (fun text alternative => Accepts text (Grammar.tally alternative))
        (alternativeTexts contents) alternatives :=
      List.forall₂_iff_zip.2 ⟨length, fun {text alternative} member => ih text alternative member⟩
    have inside : Accepts contents (Grammar.alternativesTally alternatives) := by
      rw [Accepts, Nesting.scan?_contents encloses.1, foldlM_scan? all rfl]
      exact congrArg (fun seen => some (Nesting.mk [] false seen)) (zero_add _)
    exact accepts_bracketText plain literal (inside.bracket .square) ih'

/-! ## Brackets that cross -/

/-- Texts in which brackets cross: a round or a square bracket opens outside of names, accepted text stands
behind it, and then the other kind is closed. -/
inductive Crossing : List Char → Prop
  | round {front inside rest : List Char} {s : Nesting} {groups : Tally} :
    Nesting.start.scan? front = some s → s.inName = false → Accepts inside groups →
    Crossing (front ++ '(' :: (inside ++ ']' :: rest))
  | square {front inside rest : List Char} {s : Nesting} {groups : Tally} :
    Nesting.start.scan? front = some s → s.inName = false → Accepts inside groups →
    Crossing (front ++ '[' :: (inside ++ ')' :: rest))

theorem Crossing.scan?_eq_none {text : List Char} (h : Crossing text) :
    Nesting.start.scan? text = none := by
  cases h with
  | round inFront outside inside =>
    rw [Nesting.scan?_append_of_eq_some inFront, inside.scan?_opened .round outside,
      Nesting.scan?_bare (by decide)]
    rfl
  | square inFront outside inside =>
    rw [Nesting.scan?_append_of_eq_some inFront, inside.scan?_opened .square outside,
      Nesting.scan?_bare (by decide)]
    rfl

/-- **Nesting.** A format string that compiles is accepted by the stack, and the groups that were seen are as
many of each kind as the grammar has at all depths. One in which brackets cross, however deep, does not
compile. -/
theorem compile_nested (format : String) :
    (∀ grammar, compile format = .ok grammar →
      Nesting.start.scan? format.toList = some ⟨[], false, Grammar.tally grammar⟩) ∧
    (Crossing format.toList → ∃ fault, compile format = .error fault) := by
  have accepted : ∀ grammar, compile format = .ok grammar →
      Accepts format.toList (Grammar.tally grammar) :=
    fun grammar compiled => (compiles_of_compileParts compiled).accepts
  refine ⟨accepted, fun crossing => ?_⟩
  cases compiled : compile format with
  | error fault => exact ⟨fault, rfl⟩
  | ok grammar =>
    have none := crossing.scan?_eq_none
    rw [accepted grammar compiled] at none
    cases none

/-- The bracket in a name and the escaped one belong to no group. -/
theorem compile_nested_show :
    let format := "show (the \x7ba[b\x7d [big, \\[ \x7bname\x7d])"
    let grammar : Grammar :=
      [.literal ["show"] false,
        .optional [.literal ["the"] false, .argument "a[b",
          .choices [[.literal ["big"] false], [.literal ["\\["] false, .argument "name"]]]]
    compile format = .ok grammar ∧
      Nesting.start.scan? format.toList = some ⟨[], false, ⟨1, 1, 2⟩⟩ ∧
      Crossing "say (a [b) c]".toList ∧ ∃ fault, compile "say (a [b) c]" = .error fault := by
  intro format grammar
  have compiled : compile "show (the \x7ba[b\x7d [big, \\[ \x7bname\x7d])" = .ok grammar := by
    cbv
  have crossing : Crossing "say (a [b) c]".toList :=
    @Crossing.square "say (a ".toList "b".toList " c]".toList ⟨['('], false, ⟨1, 0, 0⟩⟩ 0
      (by decide) rfl (by unfold Accepts; decide)
  exact ⟨compiled, (compile_nested format).1 grammar compiled, crossing,
    (compile_nested "say (a [b) c]").2 crossing⟩

end Phrasebook
