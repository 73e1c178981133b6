import Phrasebook.Command.Basic
import Phrasebook.Proofs.Grammar.Match

/-!
# Literals decide what matches

All that matching can tell about a token is whether it is the word of some literal. Two lists of tokens
that no literal tells apart are therefore matched in the same way, down to the places that the arguments
are taken from (`MatchedAlike`): `match?_told_by_literals`. Where no case counts, tokens may be written in
either case.
-/

namespace Phrasebook

open Phrasebook.Text

/-! ## Alike bindings -/

section

variable {R : String → String → Prop} {entries entries' : List (String × String)}

theorem AlikeEntries.names_eq (h : AlikeEntries R entries entries') :
    entries.map (·.1) = entries'.map (·.1) := by
  induction h with
  | nil => rfl
  | cons paired _ ih => rw [List.map_cons, List.map_cons, paired.1, ih]

/-- A name is bound in neither list or in both, and to related tokens. -/
theorem AlikeEntries.find? (h : AlikeEntries R entries entries') (name : String) :
    Option.Rel R (Members.find? entries name) (Members.find? entries' name) := by
  induction h with
  | nil => exact .none
  | @cons entry entry' rest rest' paired _ ih =>
    obtain ⟨known, token⟩ := entry
    obtain ⟨known', token'⟩ := entry'
    obtain ⟨rfl, related⟩ : known = known' ∧ R token token' := paired
    rw [Members.find?, Members.find?]
    split
    · exact .some related
    · exact ih

end

/-! ## Alike matches -/

/-- Neither of two results is a match, or both are, take as many tokens, and bind the same names, each to
the tokens at one of the places that are taken. -/
def MatchedAlike (tokens tokens' : List String) (result result' : Option Match) : Prop :=
  (result = none ∧ result' = none) ∨
    ∃ found found', result = some found ∧ result' = some found' ∧
      found.tokenCount = found'.tokenCount ∧ found.arguments.names = found'.arguments.names ∧
      ∀ name ∈ found.arguments.names, ∃ i < found.tokenCount, ∃ token token',
        tokens[i]? = some token ∧ tokens'[i]? = some token' ∧
        found.arguments.get? name = some token ∧ found'.arguments.get? name = some token'

theorem matchedAlike_of_indistinct {grammar : Grammar} {tokens tokens' : List String}
    (h : Indistinct (Grammar.literals grammar) tokens tokens') :
    MatchedAlike tokens tokens' (Grammar.match? tokens grammar) (Grammar.match? tokens' grammar) := by
  rcases exists_of_rel (Grammar.match?_parallel grammar h) with
    missing | ⟨found, found', fits, fits', parallel⟩
  · exact .inl missing
  refine .inr ⟨found, found', fits, fits', parallel.tokenCount, parallel.arguments.names_eq, ?_⟩
  intro name bound
  obtain ⟨known, isBound⟩ := Bindings.mem_names_iff.1 bound
  rcases exists_of_rel (parallel.arguments.find? name) with
    ⟨missing, -⟩ | ⟨token, token', binds, binds', i, inFront, here, here'⟩
  · rw [Bindings.get?, missing] at isBound
    cases isBound
  · exact ⟨i, inFront, token, token', here, here', binds, binds'⟩

variable {σ N : Type}

/-- **Literals decide.** Two token lists of one length are matched alike by a grammar whose literals, each
with its own regard to case, tell the tokens at no place apart. So are two lists of tokens that are the
same but for case by a command without literals whose case counts. -/
theorem match?_told_by_literals (tokens tokens' : List String) :
    (∀ grammar : Grammar, tokens.length = tokens'.length →
      (∀ word caseSensitive, (word, caseSensitive) ∈ Grammar.literals grammar →
        ∀ (i : Nat) (token token' : String), tokens[i]? = some token → tokens'[i]? = some token' →
          (tokenFits caseSensitive word token = true ↔
            tokenFits caseSensitive word token' = true)) →
      MatchedAlike tokens tokens' (Grammar.match? tokens grammar)
        (Grammar.match? tokens' grammar)) ∧
    ∀ command : Command σ N,
      (∀ word caseSensitive, (word, caseSensitive) ∈ Grammar.literals command.grammar →
        caseSensitive = false) →
      tokens.map foldCase = tokens'.map foldCase →
      MatchedAlike tokens tokens' (command.match? tokens) (command.match? tokens') := by
  constructor
  · intro grammar length same
    refine matchedAlike_of_indistinct (List.forall₂_iff_get.2 ⟨length, fun i bound bound' => ?_⟩)
    intro literal member
    exact Bool.eq_iff_iff.2 (same literal.1 literal.2 member i _ _
      (List.getElem?_eq_getElem bound) (List.getElem?_eq_getElem bound'))
  · intro command anyCase folded
    refine matchedAlike_of_indistinct ?_
    have folds : List.Forall₂ Eq (tokens.map foldCase) (tokens'.map foldCase) :=
      folded ▸ List.forall₂_refl _
    have paired := List.forall₂_map_left_iff.1 (List.forall₂_map_right_iff.1 folds)
    refine paired.imp fun token token' same literal member => ?_
    rw [anyCase literal.1 literal.2 member, tokenFits, tokenFits]
    simp only [Bool.false_eq_true, if_false, same]

/-- A literal whose case counts is told apart by it, and the values of arguments are not told apart. -/
theorem match?_told_by_literals_turn :
    let grammar : Grammar := [.literal ["turn"] false,
      .choices [[.literal ["ON"] true, .argument "lamp"], [.argument "mode", .argument "lamp"]]]
    let command : Command Unit String :=
      ⟨"say", [.literal ["say"] false, .argument "what"], none, none⟩
    (∃ found, Grammar.match? ["Turn", "ON", "left"] grammar = some found ∧
      found.arguments.names = ["lamp"]) ∧
    MatchedAlike ["Turn", "ON", "left"] ["TURN", "ON", "on"]
      (Grammar.match? ["Turn", "ON", "left"] grammar)
      (Grammar.match? ["TURN", "ON", "on"] grammar) ∧
    (∃ found, command.match? ["say", "Hi"] = some found ∧ found.tokenCount = 2) ∧
    MatchedAlike ["say", "Hi"] ["SAY", "hI"] (command.match? ["say", "Hi"])
      (command.match? ["SAY", "hI"]) := by
  intro grammar command
  have same : ∀ literal ∈ Grammar.literals grammar,
      ∀ pair ∈ ["Turn", "ON", "left"].zip ["TURN", "ON", "on"],
        tokenFits literal.2 literal.1 pair.1 = tokenFits literal.2 literal.1 pair.2 := by
    decide +kernel
  have fits : Grammar.match? ["Turn", "ON", "left"] grammar =
      some ⟨3, Bindings.empty.insert "lamp" "left"⟩ := by
    decide +kernel
  have fits' : command.match? ["say", "Hi"] = some ⟨2, Bindings.empty.insert "what" "Hi"⟩ := by
    decide +kernel
  refine ⟨⟨_, fits, rfl⟩, ?_, ⟨_, fits', rfl⟩, ?_⟩
  · refine (match?_told_by_literals (σ := Unit) (N := String) _ _).1 grammar rfl ?_
    intro word caseSensitive member i token token' here here'
    have pair : (token, token') ∈ ["Turn", "ON", "left"].zip ["TURN", "ON", "on"] :=
      List.mem_of_getElem? (List.getElem?_zip_eq_some.2 ⟨here, here'⟩)
    exact Bool.eq_iff_iff.1 (same (word, caseSensitive) member _ pair)
  · refine (match?_told_by_literals _ _).2 command ?_ (by decide +kernel)
    have words : Grammar.literals command.grammar = [("say", false)] := rfl
    rw [words]
    intro word caseSensitive member
    exact (Prod.mk.inj (List.mem_singleton.1 member)).2

end Phrasebook
