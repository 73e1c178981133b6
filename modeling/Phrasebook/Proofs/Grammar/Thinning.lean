import Mathlib.Data.List.Forall2
import Phrasebook.Proofs.Grammar.Pieces

/-!
# Texts with fewer commas

`Thinner` relates marks to marks that have the same brackets and the same commas but for some that are
left out. Levels, depths and the clearness of a piece pass from marks to thinner ones. A choice that is
put together from the alternatives of another one, without its blank pieces, is thinner than it:
`thinner_joinPieces`.
-/

namespace Phrasebook

open Phrasebook.Text

/-- The marks on the left are those on the right without some of the commas. -/
inductive Thinner : List Mark → List Mark → Prop
  | nil : Thinner [] []
  | keep {front back : List Mark} (mark : Mark) :
    Thinner front back → Thinner (mark :: front) (mark :: back)
  | drop {front back : List Mark} {escaped : Bool} :
    Thinner front back → Thinner front (.comma escaped :: back)

theorem Thinner.refl (all : List Mark) : Thinner all all := by
  induction all with
  | nil => exact .nil
  | cons mark all ih => exact .keep mark ih

theorem Thinner.append {front front' back back' : List Mark} (h : Thinner front front')
    (h' : Thinner back back') : Thinner (front ++ back) (front' ++ back') := by
  induction h with
  | nil => exact h'
  | keep mark _ ih => exact .keep mark ih
  | drop _ ih => exact .drop ih

theorem Thinner.level?_eq {few many : List Mark} (h : Thinner few many) (opening closing : Char)
    (depth : Nat) : level? opening closing depth few = level? opening closing depth many := by
  induction h generalizing depth with
  | nil => rfl
  | keep mark _ ih =>
    cases mark with
    | bracket c => rw [level?, level?, ih]
    | comma escaped => rw [level?, level?, ih]
  | drop _ ih => rw [level?, ih]

theorem Thinner.depthBehind_eq {few many : List Mark} (h : Thinner few many) (depth : Nat) :
    depthBehind depth few = depthBehind depth many := by
  induction h generalizing depth with
  | nil => rfl
  | keep mark _ ih =>
    cases mark with
    | bracket c => rw [depthBehind, depthBehind, ih]
    | comma escaped => rw [depthBehind, depthBehind, ih]
  | drop _ ih => rw [depthBehind, ih]

theorem Thinner.clear {few many : List Mark} (h : Thinner few many) {depth : Nat}
    (clear : Clear depth many) : Clear depth few := by
  induction h generalizing depth with
  | nil => trivial
  | keep mark _ ih =>
    cases mark with
    | bracket c => exact ih clear
    | comma escaped => exact ⟨clear.1, ih clear.2⟩
  | drop _ ih => exact ih clear.2

/-- The number of commas among marks. -/
def commaCount : List Mark → Nat
  | [] => 0
  | .comma _ :: more => commaCount more + 1
  | .bracket _ :: more => commaCount more

theorem Thinner.commaCount_le {few many : List Mark} (h : Thinner few many) :
    commaCount few ≤ commaCount many := by
  induction h with
  | nil => exact Nat.le_refl 0
  | keep mark _ ih =>
    cases mark with
    | bracket c => exact ih
    | comma escaped => exact Nat.succ_le_succ ih
  | drop _ ih => exact Nat.le_succ_of_le ih

/-- With as many commas, none is left out. -/
theorem Thinner.eq_of_commaCount {few many : List Mark} (h : Thinner few many)
    (count : commaCount few = commaCount many) : few = many := by
  induction h with
  | nil => rfl
  | keep mark _ ih =>
    cases mark with
    | bracket c => rw [ih count]
    | comma escaped => rw [ih (Nat.succ.inj count)]
  | drop less _ =>
    have bound := less.commaCount_le
    rw [commaCount] at count
    omega

/-! ## Escaped commas -/

/-- The marks of a text whose commas outside brackets are escaped. -/
def escapeMarks : Nat → List Mark → List Mark
  | _, [] => []
  | depth, .comma escaped :: more => .comma (escaped || depth = 0) :: escapeMarks depth more
  | depth, .bracket c :: more => .bracket c :: escapeMarks (charDepth depth c) more

theorem Thinner.escapeMarks {few many : List Mark} (h : Thinner few many) (depth : Nat) :
    Thinner (escapeMarks depth few) (escapeMarks depth many) := by
  induction h generalizing depth with
  | nil => exact .nil
  | keep mark _ ih =>
    cases mark with
    | bracket c => exact .keep (.bracket c) (ih _)
    | comma escaped => exact .keep (.comma _) (ih depth)
  | drop _ ih => exact .drop (ih depth)

theorem escapeMarks_bare {depth : Nat} {c : Char} (stays : ¬ (c = ',' ∧ depth = 0))
    (more : List Mark) :
    escapeMarks depth (bareMark c ++ more) =
      bareMark c ++ escapeMarks (charDepth depth c) more := by
  rw [bareMark]
  split
  · next comma =>
    have inside : depth ≠ 0 := fun outside => stays ⟨comma, outside⟩
    rw [charDepth_of_not_isBracket (by rw [comma]; decide)]
    simp [Phrasebook.escapeMarks, inside]
  · split
    · rfl
    · next bracket =>
      rw [charDepth_of_not_isBracket (by simpa using bracket), List.nil_append, List.nil_append]

theorem escapeMarks_escaped (depth : Nat) (c : Char) (more : List Mark) :
    escapeMarks depth (escapedMark c ++ more) = escapedMark c ++ escapeMarks depth more := by
  rw [escapedMark]
  split <;> rfl

theorem Paired.escapeOutside {text : List Char} (h : Paired text) (depth : Nat) :
    Paired (escapeOutside depth text) := by
  induction h generalizing depth with
  | nil => exact .nil
  | @bare c text plain _ ih =>
    by_cases outside : c = ',' ∧ depth = 0
    · obtain ⟨rfl, rfl⟩ := outside
      rw [escapeOutside_comma]
      exact .escaped (ih 0)
    · rw [escapeOutside_bare plain outside]
      exact .bare plain (ih _)
  | escaped _ ih =>
    rw [escapeOutside_escaped]
    exact .escaped (ih depth)

theorem marks_escapeOutside {text : List Char} (h : Paired text) (depth : Nat) :
    marks (escapeOutside depth text) = escapeMarks depth (marks text) := by
  induction h generalizing depth with
  | nil => rfl
  | @bare c text plain _ ih =>
    by_cases outside : c = ',' ∧ depth = 0
    · obtain ⟨rfl, rfl⟩ := outside
      rw [escapeOutside_comma, marks_escaped, marks_bare plain, ih]
      rfl
    · rw [escapeOutside_bare plain outside, marks_bare plain, marks_bare plain, ih,
        escapeMarks_bare outside]
  | escaped _ ih =>
    rw [escapeOutside_escaped, marks_escaped, marks_escaped, ih, escapeMarks_escaped]

theorem Pieces.paired_joinPieces {depth : Nat} {pieces : List (List Char)} (h : Pieces depth pieces) :
    Paired (joinPieces depth pieces) := by
  induction h with
  | last paired _ => exact paired.escapeOutside _
  | cons paired _ _ _ ih => exact (paired.escapeOutside _).append (.bare (by decide) ih)

theorem marks_joinPieces {depth : Nat} {piece : List Char} (paired : Paired piece)
    (next : List Char) (more : List (List Char)) :
    marks (joinPieces depth (piece :: next :: more)) =
      escapeMarks depth (marks piece) ++ .comma false :: marks (joinPieces 0 (next :: more)) := by
  rw [joinPieces, (paired.escapeOutside depth).marks_append, marks_escapeOutside paired,
    marks_bare (by decide)]
  rfl

/-! ## Choices -/

/-- A text that can stand for another one: with the same marks but for some commas. -/
def Replaces (old new : List Char) : Prop :=
  Paired new ∧ Thinner (marks new) (marks old)

theorem marks_trimUnescaped {text : List Char} (h : Paired text) :
    marks (trimUnescaped text) = marks text := by
  obtain ⟨front, back, equal, inFront, inBack, -, neat⟩ := exists_trimUnescaped h
  rw [congrArg marks equal, (paired_of_blank inFront).marks_append, marks_of_blank inFront,
    neat.1.marks_append, marks_of_blank inBack, List.nil_append, List.append_nil]

/-- The pieces that are not blank, each replaced by another text, form a thinner choice. -/
theorem thinner_joinPieces {depth : Nat} {pieces : List (List Char)} (h : Pieces depth pieces)
    {news : List (List Char)}
    (replaced : List.Forall₂ Replaces
      ((pieces.map trimUnescaped).filter fun piece => !piece.isEmpty) news) :
    (news ≠ [] → Pieces depth news) ∧
      Thinner (marks (joinPieces depth news)) (marks (joinPieces depth pieces)) := by
  induction h generalizing news with
  | @last depth piece paired clear =>
    have same := marks_trimUnescaped paired
    rw [joinPieces, marks_escapeOutside paired, ← same]
    rw [← same] at clear
    cases core : trimUnescaped piece with
    | nil =>
      rw [List.map_singleton, core] at replaced
      cases replaced
      exact ⟨fun some => absurd rfl some, .nil⟩
    | cons c core' =>
      rw [List.map_singleton, core] at replaced
      rw [core] at clear
      obtain _ | ⟨⟨isNew, thinner⟩, _ | _⟩ := replaced
      refine ⟨fun _ => .last isNew (thinner.clear clear), ?_⟩
      rw [joinPieces, marks_escapeOutside isNew]
      exact thinner.escapeMarks depth
  | @cons depth piece next more paired clear closed _ ih =>
    have same := marks_trimUnescaped paired
    rw [marks_joinPieces paired, ← same]
    rw [← same] at clear closed
    rw [List.map_cons] at replaced
    cases core : trimUnescaped piece with
    | nil =>
      rw [core] at replaced closed
      obtain rfl : depth = 0 := closed
      obtain ⟨isPieces, thinner⟩ := ih replaced
      exact ⟨isPieces, .drop thinner⟩
    | cons c core' =>
      rw [core] at replaced clear closed
      obtain _ | ⟨⟨isNew, thinner⟩, later⟩ := replaced
      obtain ⟨isPieces, thinnerLater⟩ := ih later
      rename_i new news'
      cases news' with
      | nil =>
        refine ⟨fun _ => .last isNew (thinner.clear clear), ?_⟩
        rw [joinPieces, marks_escapeOutside isNew, ← List.append_nil (escapeMarks depth (marks new))]
        exact (thinner.escapeMarks depth).append (.drop thinnerLater)
      | cons new' news' =>
        refine ⟨fun _ => .cons isNew (thinner.clear clear) ?_ (isPieces (List.cons_ne_nil _ _)), ?_⟩
        · rw [thinner.depthBehind_eq, closed]
        · rw [marks_joinPieces isNew]
          exact (thinner.escapeMarks depth).append (.keep _ thinnerLater)

end Phrasebook
