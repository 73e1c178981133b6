import Mathlib.Data.List.Forall2
import Phrasebook.Grammar.Match

/-!
# Token lists that match alike

Matching looks at a token only to compare it with a word of a literal. If the literals of a grammar tell
the tokens at no place of two lists apart (`Indistinct`), the grammar fits both or neither, takes as many
tokens from both, and binds the same names to tokens at the same places: `Grammar.match?_parallel`.

Where the paired tokens are related in some way, so are those that a name is bound to
(`Grammar.match?_alike`).
-/

namespace Phrasebook

/-! ## Words of literals -/

mutual

/-- The words of the literals in a part, at every depth. -/
def Part.literalWords : Part → List String
  | .literal tokens _ => tokens
  | .argument _ => []
  | .optional body => Grammar.literalWords body
  | .choices alternatives => Grammar.alternativeWords alternatives

/-- The words of the literals in a grammar, at every depth. -/
def Grammar.literalWords : List Part → List String
  | [] => []
  | part :: parts => part.literalWords ++ Grammar.literalWords parts

/-- The words of the literals in alternatives, at every depth. -/
def Grammar.alternativeWords : List (List Part) → List String
  | [] => []
  | alternative :: alternatives =>
    Grammar.literalWords alternative ++ Grammar.alternativeWords alternatives

end

theorem literalWords_append (parts more : Grammar) :
    Grammar.literalWords (parts ++ more) =
      Grammar.literalWords parts ++ Grammar.literalWords more := by
  induction parts with
  | nil => rfl
  | cons part parts ih =>
    rw [List.cons_append, Grammar.literalWords, Grammar.literalWords, ih, List.append_assoc]

mutual

/-- The words of the literals in a part, at every depth, each with whether its case counts. -/
def Part.literals : Part → List (String × Bool)
  | .literal tokens caseSensitive => tokens.map (·, caseSensitive)
  | .argument _ => []
  | .optional body => Grammar.literals body
  | .choices alternatives => Grammar.alternativeLiterals alternatives

/-- The words of the literals in a grammar, each with whether its case counts. -/
def Grammar.literals : List Part → List (String × Bool)
  | [] => []
  | part :: parts => part.literals ++ Grammar.literals parts

/-- The words of the literals in alternatives, each with whether its case counts. -/
def Grammar.alternativeLiterals : List (List Part) → List (String × Bool)
  | [] => []
  | alternative :: alternatives =>
    Grammar.literals alternative ++ Grammar.alternativeLiterals alternatives

end

mutual

theorem Part.map_fst_literals (part : Part) : part.literals.map (·.1) = part.literalWords := by
  match part with
  | .literal tokens caseSensitive => simp [Part.literals, Part.literalWords, Function.comp_def]
  | .argument name => rfl
  | .optional body => exact Grammar.map_fst_literals body
  | .choices alternatives => exact Grammar.map_fst_alternativeLiterals alternatives

/-- The words are the same without the case. -/
theorem Grammar.map_fst_literals (grammar : List Part) :
    (Grammar.literals grammar).map (·.1) = Grammar.literalWords grammar := by
  match grammar with
  | [] => rfl
  | part :: parts =>
    rw [Grammar.literals, Grammar.literalWords, List.map_append, Part.map_fst_literals part,
      Grammar.map_fst_literals parts]

theorem Grammar.map_fst_alternativeLiterals (alternatives : List (List Part)) :
    (Grammar.alternativeLiterals alternatives).map (·.1) =
      Grammar.alternativeWords alternatives := by
  match alternatives with
  | [] => rfl
  | alternative :: alternatives =>
    rw [Grammar.alternativeLiterals, Grammar.alternativeWords, List.map_append,
      Grammar.map_fst_literals alternative, Grammar.map_fst_alternativeLiterals alternatives]

end

theorem mem_alternativeWords {alternative : Grammar} {alternatives : List Grammar}
    (member : alternative ∈ alternatives) {token : String}
    (word : token ∈ Grammar.literalWords alternative) :
    token ∈ Grammar.alternativeWords alternatives := by
  induction alternatives with
  | nil => cases member
  | cons first alternatives ih =>
    rw [Grammar.alternativeWords, List.mem_append]
    rcases List.mem_cons.1 member with rfl | later
    · exact .inl word
    · exact .inr (ih later)

/-! ## Related bindings and matches -/

section

variable (R : String → String → Prop)

/-- The words tell no two related tokens apart. -/
def Unseen (words : List String) : Prop :=
  ∀ word ∈ words, ∀ caseSensitive token token', R token token' →
    tokenFits caseSensitive word token = tokenFits caseSensitive word token'

/-- The same names in the same order, bound to related tokens. -/
def AlikeEntries (entries entries' : List (String × String)) : Prop :=
  List.Forall₂ (fun entry entry' => entry.1 = entry'.1 ∧ R entry.2 entry'.2) entries entries'

/-- Matches that take as many tokens and bind the same names to related tokens. -/
structure Match.Alike (found found' : Match) : Prop where
  tokenCount : found.tokenCount = found'.tokenCount
  arguments : AlikeEntries R found.arguments.entries found'.arguments.entries

end

section

variable {R : String → String → Prop}

theorem alikeEntries_insertEntry {entries entries' : List (String × String)} {token token' : String}
    (name : String) (h : AlikeEntries R entries entries') (related : R token token') :
    AlikeEntries R (Bindings.insertEntry name token entries)
      (Bindings.insertEntry name token' entries') := by
  induction h with
  | nil => exact .cons ⟨rfl, related⟩ .nil
  | @cons entry entry' rest rest' paired later ih =>
    obtain ⟨known, old⟩ := entry
    obtain ⟨known', old'⟩ := entry'
    obtain ⟨rfl, relatedOld⟩ : known = known' ∧ R old old' := paired
    rw [Bindings.insertEntry, Bindings.insertEntry]
    by_cases before : name < known
    · rw [if_pos before, if_pos before]
      exact .cons ⟨rfl, related⟩ (.cons ⟨rfl, relatedOld⟩ later)
    · rw [if_neg before, if_neg before]
      by_cases same : name = known
      · rw [if_pos same, if_pos same]
        exact .cons ⟨rfl, related⟩ later
      · rw [if_neg same, if_neg same]
        exact .cons ⟨rfl, relatedOld⟩ ih

theorem alikeEntries_append {first first' later later' : Bindings}
    (h : AlikeEntries R first.entries first'.entries)
    (h' : AlikeEntries R later.entries later'.entries) :
    AlikeEntries R (first.append later).entries (first'.append later').entries := by
  rw [Bindings.append, Bindings.append]
  revert h'
  generalize later.entries = entries
  generalize later'.entries = entries'
  intro h'
  induction h' generalizing first first' with
  | nil => exact h
  | @cons entry entry' _ _ paired _ ih =>
    obtain ⟨name, token⟩ := entry
    obtain ⟨name', token'⟩ := entry'
    obtain ⟨rfl, related⟩ : name = name' ∧ R token token' := paired
    exact ih (alikeEntries_insertEntry name h related)

theorem AlikeEntries.mono {S : String → String → Prop} {entries entries' : List (String × String)}
    (h : AlikeEntries R entries entries') (le : ∀ token token', R token token' → S token token') :
    AlikeEntries S entries entries' :=
  List.Forall₂.imp (fun _ _ paired => ⟨paired.1, le _ _ paired.2⟩) h

/-- Two results are related when neither is there, or both are and are related. -/
theorem exists_of_rel {α β : Type} {r : α → β → Prop} {found : Option α} {found' : Option β}
    (h : Option.Rel r found found') :
    (found = none ∧ found' = none) ∨ ∃ a b, found = some a ∧ found' = some b ∧ r a b := by
  cases h with
  | none => exact .inl ⟨rfl, rfl⟩
  | some related => exact .inr ⟨_, _, rfl, rfl, related⟩

end

/-! ## Tokens at the same place -/

/-- The tokens at one of the first places of two lists. -/
def Beside (tokens tokens' : List String) (count : Nat) (token token' : String) : Prop :=
  ∃ i < count, tokens[i]? = some token ∧ tokens'[i]? = some token'

/-- Matches that take as many tokens and bind the same names to tokens at the same places. -/
structure Match.Parallel (tokens tokens' : List String) (found found' : Match) : Prop where
  tokenCount : found.tokenCount = found'.tokenCount
  arguments : AlikeEntries (Beside tokens tokens' found.tokenCount) found.arguments.entries
    found'.arguments.entries

section

variable {tokens tokens' : List String}

theorem Beside.mono {count more : Nat} (le : count ≤ more) {token token' : String}
    (h : Beside tokens tokens' count token token') : Beside tokens tokens' more token token' := by
  obtain ⟨i, inFront, same⟩ := h
  exact ⟨i, Nat.lt_of_lt_of_le inFront le, same⟩

theorem Beside.of_drop {start count : Nat} {token token' : String}
    (h : Beside (tokens.drop start) (tokens'.drop start) count token token') :
    Beside tokens tokens' (start + count) token token' := by
  obtain ⟨i, inFront, here, here'⟩ := h
  rw [List.getElem?_drop] at here here'
  exact ⟨start + i, Nat.add_lt_add_left inFront start, here, here'⟩

/-- Tokens at the same place are related if the lists are. -/
theorem Beside.related {R : String → String → Prop} (h : List.Forall₂ R tokens tokens') {count : Nat}
    {token token' : String} (beside : Beside tokens tokens' count token token') : R token token' := by
  obtain ⟨i, -, here, here'⟩ := beside
  obtain ⟨bound, rfl⟩ := List.getElem?_eq_some_iff.1 here
  obtain ⟨bound', rfl⟩ := List.getElem?_eq_some_iff.1 here'
  exact (List.forall₂_iff_get.1 h).2 i bound bound'

theorem Match.parallel_empty : Match.Parallel tokens tokens' .empty .empty :=
  ⟨rfl, .nil⟩

theorem Match.Parallel.append {first first' later later' : Match}
    (h : Match.Parallel tokens tokens' first first')
    (h' : Match.Parallel (tokens.drop first.tokenCount) (tokens'.drop first.tokenCount) later
      later') : Match.Parallel tokens tokens' (first.append later) (first'.append later') := by
  refine ⟨congrArg₂ (· + ·) h.tokenCount h'.tokenCount, alikeEntries_append ?_ ?_⟩
  · exact h.arguments.mono fun _ _ => Beside.mono (Nat.le_add_right _ _)
  · exact h'.arguments.mono fun _ _ => Beside.of_drop

/-! ## Matching -/

/-- The literals tell the tokens at no place of two lists apart. -/
def Indistinct (literals : List (String × Bool)) (tokens tokens' : List String) : Prop :=
  List.Forall₂ (fun token token' => ∀ literal ∈ literals,
    tokenFits literal.2 literal.1 token = tokenFits literal.2 literal.1 token') tokens tokens'

theorem Indistinct.mono {literals fewer : List (String × Bool)} (le : fewer ⊆ literals)
    (h : Indistinct literals tokens tokens') : Indistinct fewer tokens tokens' :=
  List.Forall₂.imp (fun _ _ same literal member => same literal (le member)) h

theorem Indistinct.drop {literals : List (String × Bool)} (h : Indistinct literals tokens tokens')
    (count : Nat) : Indistinct literals (tokens.drop count) (tokens'.drop count) :=
  List.forall₂_drop count h

theorem Indistinct.tokensFit_eq (caseSensitive : Bool) {expected tokens tokens' : List String}
    (h : Indistinct (expected.map (·, caseSensitive)) tokens tokens') :
    tokensFit caseSensitive expected tokens = tokensFit caseSensitive expected tokens' := by
  induction expected generalizing tokens tokens' with
  | nil => cases h <;> rfl
  | cons word expected ih =>
    cases h with
    | nil => rfl
    | cons paired later =>
      have others : Indistinct (expected.map (·, caseSensitive)) _ _ :=
        Indistinct.mono (List.subset_cons_self _ _) later
      rw [tokensFit, tokensFit, paired (word, caseSensitive) List.mem_cons_self, ih others]

end

mutual

/-- A part fits both of two lists that its literals do not tell apart or neither, and in parallel. -/
theorem Part.match?_parallel (part : Part) {tokens tokens' : List String}
    (h : Indistinct part.literals tokens tokens') :
    Option.Rel (Match.Parallel tokens tokens') (part.match? tokens) (part.match? tokens') := by
  match part with
  | .literal expected caseSensitive =>
    rw [Part.match?, Part.match?, Indistinct.tokensFit_eq caseSensitive h]
    split
    · exact .some ⟨rfl, .nil⟩
    · exact .none
  | .argument name =>
    cases h with
    | nil => exact .none
    | @cons token token' tokens tokens' _ _ =>
      have beside : Beside (token :: tokens) (token' :: tokens') 1 token token' :=
        ⟨0, Nat.zero_lt_one, rfl, rfl⟩
      exact .some ⟨rfl, alikeEntries_insertEntry name .nil beside⟩
  | .optional body =>
    rw [Part.match?, Part.match?]
    rcases exists_of_rel (Grammar.match?_parallel body h) with
      ⟨missing, missing'⟩ | ⟨found, found', fits, fits', parallel⟩
    · rw [missing, missing']
      exact .some Match.parallel_empty
    · rw [fits, fits']
      exact .some parallel
  | .choices alternatives =>
    rw [Part.match?, Part.match?]
    exact Grammar.firstMatch?_parallel alternatives h

/-- A grammar fits both of two lists that its literals do not tell apart or neither, and in parallel. -/
theorem Grammar.match?_parallel (grammar : List Part) {tokens tokens' : List String}
    (h : Indistinct (Grammar.literals grammar) tokens tokens') :
    Option.Rel (Match.Parallel tokens tokens') (Grammar.match? tokens grammar)
      (Grammar.match? tokens' grammar) := by
  match grammar with
  | [] => exact .some Match.parallel_empty
  | part :: parts =>
    rw [Grammar.match?, Grammar.match?]
    rcases exists_of_rel (Part.match?_parallel part (h.mono (List.subset_append_left _ _))) with
      ⟨missing, missing'⟩ | ⟨first, first', fits, fits', parallel⟩
    · rw [missing, missing']
      exact .none
    · have left := (h.mono (List.subset_append_right _ _)).drop first.tokenCount
      have later := Grammar.match?_parallel parts left
      rw [fits, fits']
      simp only [← parallel.tokenCount]
      rcases exists_of_rel later with ⟨missing, missing'⟩ | ⟨more, more', fits, fits', parallel'⟩
      · rw [missing, missing']
        exact .none
      · rw [fits, fits']
        exact .some (parallel.append parallel')

/-- The first alternative that fits is the same for two lists that the literals do not tell apart. -/
theorem Grammar.firstMatch?_parallel (alternatives : List (List Part)) {tokens tokens' : List String}
    (h : Indistinct (Grammar.alternativeLiterals alternatives) tokens tokens') :
    Option.Rel (Match.Parallel tokens tokens') (Grammar.firstMatch? tokens alternatives)
      (Grammar.firstMatch? tokens' alternatives) := by
  match alternatives with
  | [] => exact .none
  | alternative :: alternatives =>
    have first := Grammar.match?_parallel alternative (h.mono (List.subset_append_left _ _))
    rw [Grammar.firstMatch?, Grammar.firstMatch?]
    rcases exists_of_rel first with ⟨missing, missing'⟩ | ⟨found, found', fits, fits', parallel⟩
    · rw [missing, missing']
      exact Grammar.firstMatch?_parallel alternatives (h.mono (List.subset_append_right _ _))
    · rw [fits, fits']
      exact .some parallel

end

/-- A grammar whose words tell no related tokens apart fits both of two lists of related tokens or
neither, and alike. -/
theorem Grammar.match?_alike {R : String → String → Prop} (grammar : Grammar)
    (unseen : Unseen R (Grammar.literalWords grammar)) {tokens tokens' : List String}
    (related : List.Forall₂ R tokens tokens') :
    Option.Rel (Match.Alike R) (Grammar.match? tokens grammar)
      (Grammar.match? tokens' grammar) := by
  have words : ∀ literal ∈ Grammar.literals grammar, literal.1 ∈ Grammar.literalWords grammar := by
    intro literal member
    rw [← Grammar.map_fst_literals]
    exact List.mem_map_of_mem member
  have indistinct : Indistinct (Grammar.literals grammar) tokens tokens' :=
    related.imp fun token token' paired literal member =>
      unseen literal.1 (words literal member) literal.2 token token' paired
  rcases exists_of_rel (Grammar.match?_parallel grammar indistinct) with
    ⟨missing, missing'⟩ | ⟨found, found', fits, fits', parallel⟩
  · rw [missing, missing']
    exact .none
  · rw [fits, fits']
    exact .some ⟨parallel.tokenCount, parallel.arguments.mono fun _ _ => Beside.related related⟩

end Phrasebook
