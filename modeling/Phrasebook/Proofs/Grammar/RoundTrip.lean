import Phrasebook.Proofs.Grammar.Commas
import Phrasebook.Proofs.Grammar.LineBreaks

/-!
# Formats that are compiled again

`compile_format_iff` says when the format string of a compiled grammar compiles to the grammar again: if
and only if the tokens of its literals are neat, and every comma is written as `Grammar.safeText` writes
it. A token that is not neat is lost with the line break behind it, and a comma that is written otherwise
changes the marks of the choice that it stands in.
-/

namespace Phrasebook

theorem argumentNames_append (parts more : Grammar) :
    Grammar.argumentNames (parts ++ more) =
      Grammar.argumentNames parts ++ Grammar.argumentNames more := by
  induction parts with
  | nil => rfl
  | cons part parts ih =>
    rw [List.cons_append, Grammar.argumentNames, Grammar.argumentNames, ih, List.append_assoc]

theorem argumentNames_of_literalParts {front : List Char} {parts : Grammar}
    (h : literalParts front = .ok parts) : Grammar.argumentNames parts = [] := by
  rcases cases_of_literalParts h with ⟨-, rfl⟩ | ⟨tokens, -, rfl⟩ <;> rfl

theorem mem_alternativeNames {alternative : Grammar} {alternatives : List Grammar}
    (member : alternative ∈ alternatives) {name : String}
    (named : name ∈ Grammar.argumentNames alternative) :
    name ∈ Grammar.alternativeNames alternatives := by
  induction alternatives with
  | nil => cases member
  | cons first alternatives ih =>
    rw [Grammar.alternativeNames, List.mem_append]
    rcases List.mem_cons.1 member with rfl | later
    · exact .inl named
    · exact .inr (ih later)

theorem paired_alternativeNames {texts : List (List Char)} {alternatives : List Grammar}
    (h : List.Forall₂ (fun _ alternative => ∀ name ∈ Grammar.argumentNames alternative,
      Paired name.toList) texts alternatives) :
    ∀ name ∈ Grammar.alternativeNames alternatives, Paired name.toList := by
  induction h with
  | nil => intro name member; cases member
  | cons first _ ih =>
    rw [Grammar.alternativeNames, List.forall_mem_append]
    exact ⟨first, ih⟩

/-- The names in a compiled grammar hold no half of an escape. -/
theorem Compiles.paired_argumentNames {text : List Char} {grammar : Grammar}
    (h : Compiles text grammar) : ∀ name ∈ Grammar.argumentNames grammar, Paired name.toList := by
  induction h with
  | literal _ literal =>
    rw [argumentNames_of_literalParts literal]
    intro name member
    cases member
  | optional _ literal _ _ _ _ ih ih' =>
    rw [argumentNames_append, argumentNames_of_literalParts literal, List.nil_append,
      Grammar.argumentNames, Part.argumentNames, List.forall_mem_append]
    exact ⟨ih, ih'⟩
  | argument _ literal encloses _ _ _ ih =>
    rw [argumentNames_append, argumentNames_of_literalParts literal, List.nil_append,
      Grammar.argumentNames, Part.argumentNames, List.forall_mem_append, List.forall_mem_singleton,
      String.toList_ofList]
    exact ⟨encloses.1, ih⟩
  | choices _ literal _ length _ _ _ ih ih' =>
    have all := List.forall₂_iff_zip.2 ⟨length, fun member => ih _ _ member⟩
    rw [argumentNames_append, argumentNames_of_literalParts literal, List.nil_append,
      Grammar.argumentNames, Part.argumentNames, List.forall_mem_append]
    exact ⟨paired_alternativeNames all, ih'⟩

/-- A text with neat tokens that compiles to the grammar that it is written for has its commas where the
safe text has them. -/
theorem text_eq_safeText {grammar : Grammar}
    (h : Compiles (Grammar.text false grammar) grammar)
    (neat : ∀ word ∈ Grammar.literalWords grammar, Neat word.toList) :
    Grammar.text false grammar = Grammar.safeText grammar := by
  have thinner := (reprints_of_compiles h neat).thinner
  have alike := Grammar.commaAlike grammar false (fun word member => (neat word member).1)
    h.paired_argumentNames
  have same := thinner.eq_of_commaCount alike.commaCount_eq.symm
  exact alike.eq_of_marks_eq same.symm

/-- **Round trip.** The format string of a compiled grammar compiles to the grammar again if and only if
no token ends with half an escape or a bare blank, and the commas with a backslash are the ones at which
the contents of a choice would be divided. -/
theorem compile_format_iff {format : String} {grammar : Grammar}
    (h : compile format = .ok grammar) :
    compile (Grammar.format grammar) = .ok grammar ↔
      (∀ word ∈ Grammar.literalWords grammar, Neat word.toList) ∧
        Grammar.text false grammar = Grammar.safeText grammar := by
  rw [compile, Grammar.format, String.toList_ofList, ← compiles_iff]
  constructor
  · intro again
    have neat := (kept_of_compiles again false).neat (Nat.le_refl _)
    exact ⟨neat, text_eq_safeText again neat⟩
  · rintro ⟨neat, same⟩
    rw [same]
    exact (reprints_of_compiles (compiles_of_compileParts h) neat).compiles

theorem compile_format_iff_nested :
    let grammar : Grammar :=
      [.literal ["say"] false,
        .choices [[.argument "what"], [.literal ["a,b"] false, .optional [.literal ["c,d"] false]]]]
    compile "say [{what}, a\\,b (c,d)]" = .ok grammar ∧
      compile (Grammar.format grammar) = .ok grammar := by
  intro grammar
  have read : compile "say [{what}, a\\,b (c,d)]" = .ok grammar := by
    cbv
  exact ⟨read, (compile_format_iff read).2 ⟨by decide, by decide⟩⟩

/-- A bracket in the name of an argument keeps a comma from dividing the choice, and the backslash that
is written in front of it becomes a part of the literal. -/
theorem compile_format_bracket_in_name :
    let grammar : Grammar := [.choices [[.argument "a(b", .literal [",", "c"] false]]]
    compile "[{a(b}, c]" = .ok grammar ∧ compile (Grammar.format grammar) ≠ .ok grammar := by
  intro grammar
  have read : compile "[{a(b}, c]" = .ok grammar := by
    cbv
  have again : compile (Grammar.format grammar) =
      .ok [.choices [[.argument "a(b", .literal ["\\,", "c"] false]]] := by
    cbv
  refine ⟨read, ?_⟩
  rw [again]
  decide

end Phrasebook
