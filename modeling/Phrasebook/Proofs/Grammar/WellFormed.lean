import Phrasebook.Proofs.Grammar.Compiles
import Phrasebook.Proofs.Grammar.Merging

/-!
# Grammars that format strings describe

Not every grammar has a format string. `Grammar.WellFormed` says what the ones that were compiled have in
common, at every depth: nothing in brackets is empty, a literal is not followed by another one, and its tokens
are those of a single call, so that no literal asks for tokens that no call has. Each text that is compiled
yields such a grammar, also the texts of alternatives, which are cut out, rid of backslashes and trimmed first
(`Compiles.wellFormed`).
-/

namespace Phrasebook

open Phrasebook.Text Phrasebook.Input

/-! ## Well-formed grammars -/

/-- Tokens of a literal: some, none of them empty, that are one call when they are spelled with single
blanks. -/
structure SpellsCall (tokens : List String) : Prop where
  nonempty : tokens ≠ []
  solid : ∀ token ∈ tokens, token ≠ ""
  single : tokenizeSingle (" ".intercalate tokens) = .ok tokens

/-- Names that stand in braces: not blank, without a brace that opens and without a bare one that closes. -/
structure BracedName (name : String) : Prop where
  notBlank : ∃ c ∈ name.toList, isBlank c = false
  noOpening : '{' ∉ name.toList
  noClosing : Mark.bracket '}' ∉ marks name.toList

mutual

/-- Parts that a format string can describe. -/
def Part.WellFormed : Part → Prop
  | .literal tokens caseSensitive => caseSensitive = false ∧ SpellsCall tokens
  | .argument name => BracedName name
  | .optional body => body ≠ [] ∧ Grammar.WellFormed body
  | .choices alternatives => alternatives ≠ [] ∧ Grammar.AllWellFormed alternatives

/-- Grammars that a format string can describe. Of two parts next to each other, one is written in
brackets. -/
def Grammar.WellFormed : List Part → Prop
  | [] => True
  | part :: parts =>
    part.WellFormed ∧ (∀ next ∈ parts.head?, part.hasBrackets = true ∨ next.hasBrackets = true) ∧
      Grammar.WellFormed parts

/-- Alternatives that a format string can describe. -/
def Grammar.AllWellFormed : List (List Part) → Prop
  | [] => True
  | alternative :: alternatives =>
    (alternative ≠ [] ∧ Grammar.WellFormed alternative) ∧ Grammar.AllWellFormed alternatives

end

/-! ## Literals and names -/

theorem spellsCall_of_tokenizeSingle {text : List Char} {tokens : List String}
    (h : tokenizeSingle (String.ofList text) = .ok tokens) : SpellsCall tokens := by
  obtain ⟨-, some, stand⟩ := exists_lexes_of_tokenizeSingle h
  refine ⟨some, fun token member empty => ?_,
    tokenizeSingle_of_tokenize (tokenize_call_of_stand some stand)⟩
  have solid := (starts_of_stand stand).1 token.toList (List.mem_map_of_mem member)
  rw [empty] at solid
  exact solid rfl

theorem bracedName_of_encloses {contents : List Char} (encloses : Encloses '{' '}' contents)
    (noBrace : '{' ∉ contents) (some : trim contents ≠ []) : BracedName (String.ofList contents) := by
  rw [Ne, trim_eq_nil_iff] at some
  simp only [not_forall] at some
  obtain ⟨c, member, stays⟩ := some
  refine ⟨⟨c, ?_, by simpa using stays⟩, ?_, ?_⟩
  all_goals rw [String.toList_ofList]
  · exact member
  · exact noBrace
  · exact encloses.closing_notMem noBrace

/-- A literal in front of a bracket is the only one next to it. -/
theorem wellFormed_bracket {front : List Char} {parts : Grammar} {part : Part} {more : Grammar}
    (literal : literalParts front = .ok parts) (kind : part.hasBrackets = true)
    (own : part.WellFormed) (later : Grammar.WellFormed more) :
    Grammar.WellFormed (parts ++ part :: more) := by
  have behind : Grammar.WellFormed (part :: more) := ⟨own, fun _ _ => .inl kind, later⟩
  rcases cases_of_literalParts literal with ⟨-, rfl⟩ | ⟨tokens, single, rfl⟩
  · exact behind
  · refine ⟨⟨rfl, spellsCall_of_tokenizeSingle single⟩, fun next first => .inr ?_, behind⟩
    cases first
    exact kind

/-! ## Compiled grammars -/

theorem allWellFormed_of_forall₂ {texts : List (List Char)} {alternatives : List Grammar}
    (h : List.Forall₂ (fun _ alternative => alternative ≠ [] ∧ Grammar.WellFormed alternative) texts
      alternatives) : Grammar.AllWellFormed alternatives := by
  induction h with
  | nil => trivial
  | cons first _ ih => exact ⟨first, ih⟩

theorem Compiles.wellFormed {text : List Char} {grammar : Grammar} (h : Compiles text grammar) :
    Grammar.WellFormed grammar := by
  induction h with
  | literal _ literal =>
    rcases cases_of_literalParts literal with ⟨-, rfl⟩ | ⟨tokens, single, rfl⟩
    · trivial
    · exact ⟨⟨rfl, spellsCall_of_tokenizeSingle single⟩, fun _ first => (by cases first), trivial⟩
  | optional _ literal _ _ some _ ih ih' =>
    exact wellFormed_bracket literal rfl ⟨some, ih⟩ ih'
  | argument _ literal encloses noBrace some _ ih =>
    exact wellFormed_bracket literal rfl (bracedName_of_encloses encloses noBrace some) ih
  | @choices _ contents _ _ alternatives _ _ literal encloses length each some _ ih ih' =>
    have all : List.Forall₂ (fun _ alternative => alternative ≠ [] ∧ Grammar.WellFormed alternative)
        (alternativeTexts contents) alternatives := by
      refine List.forall₂_iff_zip.2 ⟨length, fun {text alternative} member => ?_⟩
      -- a text that is left after trimming is not blank, so there is something in its grammar
      obtain ⟨neat, nonempty, starts⟩ :=
        neat_alternativeTexts encloses.1 (List.of_mem_zip member).1
      exact ⟨(each text alternative member).ne_nil starts neat nonempty,
        ih text alternative member⟩
    exact wellFormed_bracket literal rfl ⟨some, allWellFormed_of_forall₂ all⟩ ih'

/-- **Compiled grammars are well formed.** In the grammar of a format string, at every depth, brackets and
alternatives hold something, literals are kept apart by brackets and spell a single call, and names fit in
braces. -/
theorem compile_wellFormed {format : String} {grammar : Grammar} (h : compile format = .ok grammar) :
    Grammar.WellFormed grammar :=
  (compiles_of_compileParts h).wellFormed

/-- The piece of blanks between the commas has no alternative, and the comma that was escaped belongs to a
literal. -/
theorem compile_wellFormed_turn :
    let grammar : Grammar :=
      [.literal ["turn"] false, .optional [.literal ["the"] false, .argument "thing\\\x7d"],
        .choices [[.literal ["on,", "off"] false], [.argument "a, b"]]]
    compile "turn (the \x7bthing\\\x7d\x7d) [on\\, off, , \x7ba, b\x7d]" = .ok grammar ∧
      Grammar.WellFormed grammar := by
  intro grammar
  have compiled : compile "turn (the \x7bthing\\\x7d\x7d) [on\\, off, , \x7ba, b\x7d]" = .ok grammar := by
    cbv
  exact ⟨compiled, compile_wellFormed compiled⟩

end Phrasebook
