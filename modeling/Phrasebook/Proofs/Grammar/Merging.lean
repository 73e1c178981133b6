import Phrasebook.Grammar.Match

/-!
# Literals that stand next to each other

Two literals one behind the other ask for the tokens of both, so they can be made one if they treat case
alike. `Grammar.merged` does this to all runs of literals in a grammar, at every depth, and
`Grammar.match?_merged` says that the grammar fits the same tokens as before.
-/

namespace Phrasebook

/-! ## Merging -/

/-- Puts a part in front of a grammar; a literal becomes one with a literal behind it that treats case
like it. -/
def Grammar.joinPart : Part → List Part → List Part
  | .literal tokens caseSensitive, .literal more caseSensitive' :: parts =>
    if caseSensitive = caseSensitive' then .literal (tokens ++ more) caseSensitive :: parts
    else .literal tokens caseSensitive :: .literal more caseSensitive' :: parts
  | part, parts => part :: parts

mutual

/-- The part with the literals in it merged. -/
def Part.merged : Part → Part
  | .literal tokens caseSensitive => .literal tokens caseSensitive
  | .argument name => .argument name
  | .optional body => .optional (Grammar.merged body)
  | .choices alternatives => .choices (Grammar.mergedAll alternatives)

/-- The grammar with every run of literals merged into one. -/
def Grammar.merged : List Part → List Part
  | [] => []
  | part :: parts => Grammar.joinPart part.merged (Grammar.merged parts)

/-- The alternatives, each with its literals merged. -/
def Grammar.mergedAll : List (List Part) → List (List Part)
  | [] => []
  | alternative :: alternatives =>
    Grammar.merged alternative :: Grammar.mergedAll alternatives

end

theorem Grammar.mergedAll_eq_map (alternatives : List (List Part)) :
    Grammar.mergedAll alternatives = alternatives.map Grammar.merged := by
  induction alternatives with
  | nil => rfl
  | cons alternative alternatives ih => rw [Grammar.mergedAll, ih, List.map_cons]

/-! ## Literals and brackets -/

/-- Whether a part is written in brackets. -/
def Part.hasBrackets : Part → Bool
  | .literal _ _ => false
  | _ => true

theorem exists_literal_of_hasBrackets {part : Part} (h : part.hasBrackets = false) :
    ∃ tokens caseSensitive, part = .literal tokens caseSensitive := by
  cases part with
  | literal tokens caseSensitive => exact ⟨tokens, caseSensitive, rfl⟩
  | argument name => cases h
  | optional body => cases h
  | choices alternatives => cases h

theorem joinPart_of_hasBrackets {part : Part} (h : part.hasBrackets = true) (parts : Grammar) :
    Grammar.joinPart part.merged parts = part.merged :: parts := by
  cases part with
  | literal tokens caseSensitive => cases h
  | argument name => rw [Part.merged, Grammar.joinPart]; simp
  | optional body => rw [Part.merged, Grammar.joinPart]; simp
  | choices alternatives => rw [Part.merged, Grammar.joinPart]; simp

theorem joinPart_literal_of_hasBrackets {part : Part} (h : part.hasBrackets = true)
    (tokens : List String) (caseSensitive : Bool) (parts : Grammar) :
    Grammar.joinPart (.literal tokens caseSensitive) (part.merged :: parts) =
      .literal tokens caseSensitive :: part.merged :: parts := by
  cases part with
  | literal more caseSensitive' => cases h
  | argument name => rw [Part.merged, Grammar.joinPart]; simp
  | optional body => rw [Part.merged, Grammar.joinPart]; simp
  | choices alternatives => rw [Part.merged, Grammar.joinPart]; simp

theorem merged_ne_nil {grammar : Grammar} (some : grammar ≠ []) : Grammar.merged grammar ≠ [] := by
  cases grammar with
  | nil => exact absurd rfl some
  | cons part parts =>
    rw [Grammar.merged]
    generalize Part.merged part = first
    fun_cases Grammar.joinPart first (Grammar.merged parts) with
    | case1 => exact List.cons_ne_nil _ _
    | case2 => exact List.cons_ne_nil _ _
    | case3 => exact List.cons_ne_nil _ _

/-- Two literals one behind the other are merged like one literal. -/
theorem merged_literals (tokens more : List String) (parts : Grammar) :
    Grammar.merged (.literal tokens false :: .literal more false :: parts) =
      Grammar.merged (.literal (tokens ++ more) false :: parts) := by
  rw [Grammar.merged, Grammar.merged, Grammar.merged, Part.merged, Part.merged, Part.merged]
  cases Grammar.merged parts with
  | nil => simp [Grammar.joinPart]
  | cons part parts =>
    cases part with
    | literal others caseSensitive => cases caseSensitive <;> simp [Grammar.joinPart]
    | argument name => simp [Grammar.joinPart]
    | optional body => simp [Grammar.joinPart]
    | choices alternatives => simp [Grammar.joinPart]

/-! ## Matching -/

theorem tokensFit_append (caseSensitive : Bool) (expected more tokens : List String) :
    tokensFit caseSensitive (expected ++ more) tokens =
      (tokensFit caseSensitive expected tokens &&
        tokensFit caseSensitive more (tokens.drop expected.length)) := by
  induction expected generalizing tokens with
  | nil => rfl
  | cons word expected ih =>
    cases tokens with
    | nil => rfl
    | cons token tokens =>
      rw [List.cons_append, tokensFit, tokensFit, ih, Bool.and_assoc]
      rfl

/-- A match that binds nothing only counts tokens. -/
theorem Match.append_append_empty (count more : Nat) (later : Match) :
    Match.append ⟨count + more, .empty⟩ later =
      Match.append ⟨count, .empty⟩ (Match.append ⟨more, .empty⟩ later) := by
  rw [Match.append, Match.append, Match.append, Bindings.empty_append, Bindings.empty_append,
    Nat.add_assoc]

theorem Grammar.match?_joinPart (tokens : List String) (part : Part) (parts : List Part) :
    Grammar.match? tokens (Grammar.joinPart part parts) = Grammar.match? tokens (part :: parts) := by
  fun_cases Grammar.joinPart part parts with
  | case1 expected more caseSensitive parts =>
    simp only [Grammar.match?, Part.match?, tokensFit_append, List.length_append]
    cases tokensFit caseSensitive expected tokens with
    | false => rfl
    | true =>
      simp only [Bool.true_and, if_true]
      cases tokensFit caseSensitive more (tokens.drop expected.length) with
      | false => rfl
      | true =>
        simp only [if_true, List.drop_drop]
        cases Grammar.match? (tokens.drop (expected.length + more.length)) parts with
        | none => rfl
        | some later => exact congrArg some (Match.append_append_empty _ _ later)
  | case2 => rfl
  | case3 => rfl

mutual

theorem Part.match?_merged (part : Part) (tokens : List String) :
    part.merged.match? tokens = part.match? tokens := by
  match part with
  | .literal expected caseSensitive => rw [Part.merged]
  | .argument name => rw [Part.merged]
  | .optional body => rw [Part.merged, Part.match?, Part.match?, Grammar.match?_merged body]
  | .choices alternatives =>
    rw [Part.merged, Part.match?, Part.match?, Grammar.firstMatch?_merged alternatives]

/-- A grammar fits the same tokens when its literals are merged. -/
theorem Grammar.match?_merged (grammar : List Part) (tokens : List String) :
    Grammar.match? tokens (Grammar.merged grammar) = Grammar.match? tokens grammar := by
  match grammar with
  | [] => rw [Grammar.merged]
  | part :: parts =>
    rw [Grammar.merged, Grammar.match?_joinPart, Grammar.match?, Grammar.match?,
      Part.match?_merged part]
    simp only [Grammar.match?_merged parts]

theorem Grammar.firstMatch?_merged (alternatives : List (List Part)) (tokens : List String) :
    Grammar.firstMatch? tokens (Grammar.mergedAll alternatives) =
      Grammar.firstMatch? tokens alternatives := by
  match alternatives with
  | [] => rw [Grammar.mergedAll]
  | alternative :: alternatives =>
    rw [Grammar.mergedAll, Grammar.firstMatch?, Grammar.firstMatch?,
      Grammar.match?_merged alternative, Grammar.firstMatch?_merged alternatives]

end

end Phrasebook
