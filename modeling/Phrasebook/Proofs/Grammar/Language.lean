import Mathlib.Data.List.Forall2
import Phrasebook.Grammar.Match

/-!
# The language of a grammar

Which token lists a grammar describes, said without matching: an optional part is there or is left out,
and a choice is any of its alternatives. `Grammar.Derives` relates a grammar to the token lists it describes
and to what these bind, in the order of the tokens. Of several tokens under one name the last one counts
(`Bindings.ofList`).

Matching is sound for this language: `Grammar.derives_of_match?` says that the tokens that a match takes are
described, with its bindings.
-/

namespace Phrasebook

/-! ## Bindings in the order in which they are made -/

namespace Bindings

/-- The bindings that result from binding names one after another. -/
def ofList (bound : List (String × String)) : Bindings :=
  bound.foldl (fun bindings (name, token) => bindings.insert name token) empty

/-- A name is bound to the token it was bound to last. -/
theorem get?_ofList (bound : List (String × String)) (name : String) :
    (ofList bound).get? name = Members.find? bound.reverse name := by
  rw [ofList, ← List.foldr_reverse]
  induction bound.reverse with
  | nil => rfl
  | cons entry later ih =>
    obtain ⟨known, token⟩ := entry
    rw [List.foldr_cons, get?_insert, ih, Members.find?]

theorem ofList_append (bound later : List (String × String)) :
    ofList (bound ++ later) = (ofList bound).append (ofList later) := by
  have find : ∀ front back : List (String × String), ∀ name,
      Members.find? (front ++ back) name = (Members.find? front name).or (Members.find? back name) := by
    intro front back name
    induction front with
    | nil => rfl
    | cons entry front ih =>
      obtain ⟨known, token⟩ := entry
      rw [List.cons_append, Members.find?, Members.find?, ih]
      split <;> rfl
  refine ext_get? fun name => ?_
  rw [get?_append, get?_ofList, get?_ofList, get?_ofList, List.reverse_append, find]

end Bindings

/-- The match that takes a run of tokens and binds names one after another. -/
def Match.ofRun (tokens : List String) (bound : List (String × String)) : Match :=
  ⟨tokens.length, .ofList bound⟩

theorem Match.ofRun_append (tokens more : List String) (bound later : List (String × String)) :
    Match.ofRun (tokens ++ more) (bound ++ later) =
      (Match.ofRun tokens bound).append (Match.ofRun more later) := by
  rw [ofRun, ofRun, ofRun, Match.append, List.length_append, Bindings.ofList_append]

/-! ## Derivations -/

mutual

/-- The runs of tokens that a part describes, with what they bind, in order. -/
inductive Part.Derives : Part → List String → List (String × String) → Prop
  | literal {expected tokens : List String} {caseSensitive : Bool} :
    List.Forall₂ (fun word token => tokenFits caseSensitive word token = true) expected tokens →
    Part.Derives (.literal expected caseSensitive) tokens []
  | argument (name token : String) : Part.Derives (.argument name) [token] [(name, token)]
  | absent (body : List Part) : Part.Derives (.optional body) [] []
  | present {body : List Part} {tokens : List String} {bound : List (String × String)} :
    Grammar.Derives body tokens bound → Part.Derives (.optional body) tokens bound
  | choice {alternative : List Part} {alternatives : List (List Part)} {tokens : List String}
    {bound : List (String × String)} :
    alternative ∈ alternatives → Grammar.Derives alternative tokens bound →
    Part.Derives (.choices alternatives) tokens bound

/-- The token lists that a grammar describes, with what they bind, in order. -/
inductive Grammar.Derives : List Part → List String → List (String × String) → Prop
  | nil : Grammar.Derives [] [] []
  | cons {part : Part} {parts : List Part} {tokens more : List String}
    {bound later : List (String × String)} :
    Part.Derives part tokens bound → Grammar.Derives parts more later →
    Grammar.Derives (part :: parts) (tokens ++ more) (bound ++ later)

end

/-! ## Soundness of matching -/

theorem exists_of_tokensFit {caseSensitive : Bool} {expected tokens : List String}
    (h : tokensFit caseSensitive expected tokens = true) :
    ∃ front back, tokens = front ++ back ∧
      List.Forall₂ (fun word token => tokenFits caseSensitive word token = true) expected front := by
  induction expected generalizing tokens with
  | nil => exact ⟨[], tokens, rfl, .nil⟩
  | cons word expected ih =>
    cases tokens with
    | nil => cases h
    | cons token tokens =>
      rw [tokensFit, Bool.and_eq_true] at h
      obtain ⟨front, back, rfl, fit⟩ := ih h.2
      exact ⟨token :: front, back, rfl, .cons h.1 fit⟩

theorem tokensFit_of_forall₂ {caseSensitive : Bool} {expected tokens : List String}
    (h : List.Forall₂ (fun word token => tokenFits caseSensitive word token = true) expected tokens)
    (rest : List String) : tokensFit caseSensitive expected (tokens ++ rest) = true := by
  induction h with
  | nil => rfl
  | cons fits _ ih => rw [List.cons_append, tokensFit, fits, ih, Bool.and_self]

mutual

/-- What a part takes of a token list is described by the part, with the bindings of the match. -/
theorem Part.derives_of_match? (part : Part) {tokens : List String} {found : Match}
    (h : part.match? tokens = some found) :
    ∃ front back bound, tokens = front ++ back ∧ found = .ofRun front bound ∧
      part.Derives front bound := by
  match part with
  | .literal expected caseSensitive =>
    rw [Part.match?] at h
    split at h
    · next fits =>
      obtain ⟨front, back, rfl, fit⟩ := exists_of_tokensFit fits
      cases h
      exact ⟨front, back, [], rfl, by rw [Match.ofRun, fit.length_eq]; rfl, .literal fit⟩
    · cases h
  | .argument name =>
    cases tokens with
    | nil => cases h
    | cons token tokens =>
      cases h
      exact ⟨[token], tokens, [(name, token)], rfl, rfl, .argument name token⟩
  | .optional body =>
    rw [Part.match?, Option.some.injEq] at h
    cases inner : Grammar.match? tokens body with
    | none =>
      rw [inner] at h
      exact ⟨[], tokens, [], rfl, h.symm, .absent body⟩
    | some found' =>
      rw [inner] at h
      obtain ⟨front, back, bound, equal, isRun, derives⟩ := Grammar.derives_of_match? body inner
      exact ⟨front, back, bound, equal, by rw [← isRun, ← h]; rfl, .present derives⟩
  | .choices alternatives =>
    rw [Part.match?] at h
    obtain ⟨alternative, member, front, back, bound, equal, isRun, derives⟩ :=
      Grammar.derives_of_firstMatch? alternatives h
    exact ⟨front, back, bound, equal, isRun, .choice member derives⟩

/-- **Soundness.** What a grammar takes of a token list is described by the grammar, with the bindings of
the match. -/
theorem Grammar.derives_of_match? (grammar : List Part) {tokens : List String} {found : Match}
    (h : Grammar.match? tokens grammar = some found) :
    ∃ front back bound, tokens = front ++ back ∧ found = .ofRun front bound ∧
      Grammar.Derives grammar front bound := by
  match grammar with
  | [] =>
    cases h
    exact ⟨[], tokens, [], rfl, rfl, .nil⟩
  | part :: parts =>
    rw [Grammar.match?] at h
    cases fits : part.match? tokens with
    | none => simp only [fits] at h; cases h
    | some first =>
      obtain ⟨front, rest, bound, rfl, rfl, derives⟩ := Part.derives_of_match? part fits
      have left : (front ++ rest).drop (Match.ofRun front bound).tokenCount = rest := List.drop_left
      simp only [fits, left] at h
      cases others : Grammar.match? rest parts with
      | none => simp only [others] at h; cases h
      | some later =>
        obtain ⟨more, back, bound', rfl, rfl, derives'⟩ := Grammar.derives_of_match? parts others
        simp only [others, Option.some.injEq] at h
        refine ⟨front ++ more, back, bound ++ bound', (List.append_assoc ..).symm, ?_,
          .cons derives derives'⟩
        rw [← h, Match.ofRun_append]

/-- What the first alternative that fits takes is described by an alternative. -/
theorem Grammar.derives_of_firstMatch? (alternatives : List (List Part)) {tokens : List String}
    {found : Match} (h : Grammar.firstMatch? tokens alternatives = some found) :
    ∃ alternative ∈ alternatives, ∃ front back bound, tokens = front ++ back ∧
      found = .ofRun front bound ∧ Grammar.Derives alternative front bound := by
  match alternatives with
  | [] => cases h
  | alternative :: alternatives =>
    rw [Grammar.firstMatch?] at h
    cases fits : Grammar.match? tokens alternative with
    | some found' =>
      simp only [fits, Option.some.injEq] at h
      subst h
      exact ⟨alternative, List.mem_cons_self, Grammar.derives_of_match? alternative fits⟩
    | none =>
      simp only [fits] at h
      obtain ⟨other, member, derives⟩ := Grammar.derives_of_firstMatch? alternatives h
      exact ⟨other, List.mem_cons_of_mem alternative member, derives⟩

end

/-- A match takes no more tokens than there are. -/
theorem tokenCount_le_of_match? {grammar : Grammar} {tokens : List String} {found : Match}
    (h : Grammar.match? tokens grammar = some found) : found.tokenCount ≤ tokens.length := by
  obtain ⟨front, back, bound, rfl, rfl, -⟩ := Grammar.derives_of_match? grammar h
  rw [Match.ofRun, List.length_append]
  exact Nat.le_add_right _ _

end Phrasebook
