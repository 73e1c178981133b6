import Phrasebook.Proofs.Grammar.Language

/-!
# Grammars that can be matched without trying again

A part that fits is taken, and none is tried again, so a match can miss a token list that the grammar
describes: `eat ({object}) please` does not fit `eat please`. This cannot happen in a `Predictive` grammar,
in which the next token tells what is to be taken: two alternatives of a choice never begin with the same
token, and an optional part never begins with a token that can stand behind it. The parts that stand behind
a part, up to the end of the whole grammar, are a grammar themselves, and travel along as `behind`.

`match?_iff_derives` says that the match of a predictive grammar takes all tokens of a list if and only if
the grammar describes the list, and that it binds what is bound in the description.
-/

namespace Phrasebook

open Phrasebook.Text

/-! ## First tokens -/

mutual

/-- Whether a part describes the empty list. -/
def Part.nullable : Part → Bool
  | .literal tokens _ => tokens.isEmpty
  | .argument _ => false
  | .optional _ => true
  | .choices alternatives => Grammar.anyNullable alternatives

/-- Whether a grammar describes the empty list. -/
def Grammar.nullable : List Part → Bool
  | [] => true
  | part :: parts => part.nullable && Grammar.nullable parts

/-- Whether one of the alternatives describes the empty list. -/
def Grammar.anyNullable : List (List Part) → Bool
  | [] => false
  | alternative :: alternatives =>
    Grammar.nullable alternative || Grammar.anyNullable alternatives

end

mutual

/-- Whether a part can begin with a token. An argument begins with any. -/
def Part.canStart (token : String) : Part → Bool
  | .literal tokens caseSensitive => tokens.head?.any fun word => tokenFits caseSensitive word token
  | .argument _ => true
  | .optional body => Grammar.canStart token body
  | .choices alternatives => Grammar.anyCanStart token alternatives

/-- Whether a grammar can begin with a token. -/
def Grammar.canStart (token : String) : List Part → Bool
  | [] => false
  | part :: parts => part.canStart token || part.nullable && Grammar.canStart token parts

/-- Whether one of the alternatives can begin with a token. -/
def Grammar.anyCanStart (token : String) : List (List Part) → Bool
  | [] => false
  | alternative :: alternatives =>
    Grammar.canStart token alternative || Grammar.anyCanStart token alternatives

end

/-- What stands behind a grammar counts where the grammar may be empty. -/
theorem canStart_append (token : String) (parts behind : Grammar) :
    Grammar.canStart token (parts ++ behind) =
      (Grammar.canStart token parts || Grammar.nullable parts && Grammar.canStart token behind) := by
  induction parts with
  | nil => simp [Grammar.canStart, Grammar.nullable]
  | cons part parts ih =>
    rw [List.cons_append, Grammar.canStart, Grammar.canStart, Grammar.nullable, ih,
      Bool.and_or_distrib_left, Bool.or_assoc, Bool.and_assoc]

mutual

theorem Part.nullable_of_derives (part : Part) {bound : List (String × String)}
    (h : part.Derives [] bound) : part.nullable = true := by
  match part with
  | .literal expected caseSensitive =>
    cases h with
    | literal fit =>
      cases fit
      rfl
  | .argument name => cases h
  | .optional body => rfl
  | .choices alternatives =>
    cases h with
    | choice member derives => exact Grammar.anyNullable_of_derives alternatives member derives

/-- A grammar that describes the empty list is nullable. -/
theorem Grammar.nullable_of_derives (grammar : List Part) {bound : List (String × String)}
    (h : Grammar.Derives grammar [] bound) : Grammar.nullable grammar = true := by
  generalize none : ([] : List String) = tokens at h
  match grammar with
  | [] => rfl
  | part :: parts =>
    cases h with
    | cons derives others =>
      obtain ⟨rfl, rfl⟩ := List.append_eq_nil_iff.1 none.symm
      rw [Grammar.nullable, Part.nullable_of_derives part derives,
        Grammar.nullable_of_derives parts others, Bool.and_self]

theorem Grammar.anyNullable_of_derives (alternatives : List (List Part)) {alternative : Grammar}
    (member : alternative ∈ alternatives) {bound : List (String × String)}
    (h : Grammar.Derives alternative [] bound) : Grammar.anyNullable alternatives = true := by
  match alternatives with
  | [] => cases member
  | first :: others =>
    rw [Grammar.anyNullable, Bool.or_eq_true]
    rcases List.mem_cons.1 member with same | later
    · exact .inl (Grammar.nullable_of_derives first (same ▸ h))
    · exact .inr (Grammar.anyNullable_of_derives others later h)

end

mutual

theorem Part.canStart_of_derives (part : Part) {token : String} {tokens : List String}
    {bound : List (String × String)} (h : part.Derives (token :: tokens) bound) :
    part.canStart token = true := by
  match part with
  | .literal expected caseSensitive =>
    cases h with
    | literal fit =>
      cases fit with
      | cons fits _ => exact fits
  | .argument name => rfl
  | .optional body =>
    cases h with
    | present derives => exact Grammar.canStart_of_derives body derives
  | .choices alternatives =>
    cases h with
    | choice member derives => exact Grammar.anyCanStart_of_derives alternatives member derives

/-- A grammar can begin with the first token of every list it describes. -/
theorem Grammar.canStart_of_derives (grammar : List Part) {token : String} {tokens : List String}
    {bound : List (String × String)} (h : Grammar.Derives grammar (token :: tokens) bound) :
    Grammar.canStart token grammar = true := by
  generalize whole : token :: tokens = run at h
  match grammar with
  | [] => cases h; cases whole
  | part :: parts =>
    cases h with
    | @cons _ _ own more _ _ derives others =>
      rw [Grammar.canStart, Bool.or_eq_true, Bool.and_eq_true]
      cases own with
      | nil =>
        rw [List.nil_append] at whole
        rw [← whole] at others
        exact .inr ⟨Part.nullable_of_derives part derives, Grammar.canStart_of_derives parts others⟩
      | cons first own =>
        obtain ⟨rfl, -⟩ := List.cons.inj whole
        exact .inl (Part.canStart_of_derives part derives)

theorem Grammar.anyCanStart_of_derives (alternatives : List (List Part)) {alternative : Grammar}
    (member : alternative ∈ alternatives) {token : String} {tokens : List String}
    {bound : List (String × String)} (h : Grammar.Derives alternative (token :: tokens) bound) :
    Grammar.anyCanStart token alternatives = true := by
  match alternatives with
  | [] => cases member
  | first :: others =>
    rw [Grammar.anyCanStart, Bool.or_eq_true]
    rcases List.mem_cons.1 member with same | later
    · exact .inl (Grammar.canStart_of_derives first (same ▸ h))
    · exact .inr (Grammar.anyCanStart_of_derives others later h)

end

/-! ## Predictive grammars -/

/-- No token begins both. -/
def Apart (grammar behind : Grammar) : Prop :=
  ∀ token, ¬ (Grammar.canStart token grammar = true ∧ Grammar.canStart token behind = true)

mutual

/-- Whether the next token tells what to take of a part in front of others. An alternative that is written
twice does no harm. -/
def Part.Predictive (behind : List Part) : Part → Prop
  | .literal tokens caseSensitive => caseSensitive = false ∧ tokens ≠ []
  | .argument _ => True
  | .optional body =>
    Grammar.nullable body = false ∧ Apart body behind ∧ Grammar.Predictive behind body
  | .choices alternatives =>
    alternatives ≠ [] ∧
      (∀ alternative ∈ alternatives, ∀ other ∈ alternatives, alternative ≠ other →
        Apart alternative other) ∧
      Grammar.AllPredictive behind alternatives

/-- Whether the next token tells what to take of a grammar in front of other parts. -/
def Grammar.Predictive (behind : List Part) : List Part → Prop
  | [] => True
  | part :: parts => part.Predictive (parts ++ behind) ∧ Grammar.Predictive behind parts

/-- The same of every alternative, none of which may be empty. -/
def Grammar.AllPredictive (behind : List Part) : List (List Part) → Prop
  | [] => True
  | alternative :: alternatives =>
    Grammar.nullable alternative = false ∧ Grammar.Predictive behind alternative ∧
      Grammar.AllPredictive behind alternatives

end

theorem solid_of_mem {behind alternative : Grammar} {alternatives : List Grammar}
    (h : Grammar.AllPredictive behind alternatives) (member : alternative ∈ alternatives) :
    Grammar.nullable alternative = false := by
  induction alternatives with
  | nil => cases member
  | cons first alternatives ih =>
    rcases List.mem_cons.1 member with rfl | later
    · exact h.1
    · exact ih h.2.2 later

/-- Tokens that can stand in front of `behind`: none, or a first one that `behind` can begin with. -/
def Follows (behind : Grammar) (tokens : List String) : Prop :=
  ∀ token ∈ tokens.head?, Grammar.canStart token behind = true

theorem Grammar.Derives.follows {parts : Grammar} {tokens : List String}
    {bound : List (String × String)} (h : Grammar.Derives parts tokens bound) {behind : Grammar}
    {rest : List String} (follows : Follows behind rest) :
    Follows (parts ++ behind) (tokens ++ rest) := by
  intro token member
  rw [canStart_append, Bool.or_eq_true, Bool.and_eq_true]
  cases tokens with
  | nil => exact .inr ⟨Grammar.nullable_of_derives parts h, follows token member⟩
  | cons first tokens =>
    cases member
    exact .inl (Grammar.canStart_of_derives parts h)

/-- A grammar that is not nullable takes a token that it can begin with. -/
theorem exists_head_of_match? {grammar : Grammar} (solid : Grammar.nullable grammar = false)
    {tokens : List String} {found : Match} (h : Grammar.match? tokens grammar = some found) :
    ∃ token more, tokens = token :: more ∧ Grammar.canStart token grammar = true := by
  obtain ⟨front, back, bound, rfl, -, derives⟩ := Grammar.derives_of_match? grammar h
  cases front with
  | nil =>
    rw [Grammar.nullable_of_derives grammar derives] at solid
    cases solid
  | cons token front => exact ⟨token, front ++ back, rfl, Grammar.canStart_of_derives grammar derives⟩

/-- What a grammar is apart from does not fit it. -/
theorem match?_of_apart {grammar behind : Grammar} (solid : Grammar.nullable grammar = false)
    (apart : Apart grammar behind) {tokens : List String} (follows : Follows behind tokens) :
    Grammar.match? tokens grammar = none := by
  cases fits : Grammar.match? tokens grammar with
  | none => rfl
  | some found =>
    obtain ⟨token, more, rfl, starts⟩ := exists_head_of_match? solid fits
    exact absurd ⟨starts, follows token rfl⟩ (apart token)

/-! ## Completeness of matching -/

mutual

/-- A predictive part takes a run that it describes, whatever may follow. -/
theorem Part.match?_of_derives (part : Part) {behind : Grammar} (predictive : part.Predictive behind)
    {tokens rest : List String} {bound : List (String × String)} (h : part.Derives tokens bound)
    (follows : Follows behind rest) :
    part.match? (tokens ++ rest) = some (.ofRun tokens bound) := by
  match part with
  | .literal expected caseSensitive =>
    cases h with
    | literal fit =>
      rw [Part.match?, if_pos (tokensFit_of_forall₂ fit rest), Match.ofRun, fit.length_eq]
      rfl
  | .argument name =>
    cases h
    rfl
  | .optional body =>
    obtain ⟨solid, apart, inner⟩ := predictive
    cases h with
    | absent =>
      rw [List.nil_append, Part.match?, match?_of_apart solid apart follows]
      rfl
    | present derives =>
      rw [Part.match?, Grammar.match?_of_derives body inner derives follows]
      rfl
  | .choices alternatives =>
    obtain ⟨-, apart, inner⟩ := predictive
    cases h with
    | choice member derives =>
      exact Grammar.firstMatch?_of_derives alternatives apart inner member derives follows

/-- **Completeness.** A predictive grammar takes a run that it describes, whatever may follow. -/
theorem Grammar.match?_of_derives (grammar : List Part) {behind : Grammar}
    (predictive : Grammar.Predictive behind grammar) {tokens rest : List String}
    {bound : List (String × String)} (h : Grammar.Derives grammar tokens bound)
    (follows : Follows behind rest) :
    Grammar.match? (tokens ++ rest) grammar = some (.ofRun tokens bound) := by
  match grammar with
  | [] =>
    cases h
    rfl
  | part :: parts =>
    obtain ⟨first, others⟩ := predictive
    cases h with
    | @cons _ _ own more own' more' derives later =>
      have fits := Part.match?_of_derives part first derives (later.follows follows)
      have left : (own ++ (more ++ rest)).drop (Match.ofRun own own').tokenCount = more ++ rest :=
        List.drop_left
      rw [List.append_assoc, Grammar.match?, fits]
      simp only [left, Grammar.match?_of_derives parts others later follows, Match.ofRun_append]

/-- Of alternatives that are told apart by their first tokens, the one that describes a run takes it. -/
theorem Grammar.firstMatch?_of_derives (alternatives : List (List Part)) {behind : Grammar}
    (apart : ∀ alternative ∈ alternatives, ∀ other ∈ alternatives, alternative ≠ other →
      Apart alternative other)
    (predictive : Grammar.AllPredictive behind alternatives) {alternative : Grammar}
    (member : alternative ∈ alternatives) {tokens rest : List String}
    {bound : List (String × String)} (h : Grammar.Derives alternative tokens bound)
    (follows : Follows behind rest) :
    Grammar.firstMatch? (tokens ++ rest) alternatives = some (.ofRun tokens bound) := by
  match alternatives with
  | [] => cases member
  | first :: others =>
    obtain ⟨solid, inner, later⟩ := predictive
    rw [Grammar.firstMatch?]
    by_cases same : alternative = first
    · rw [Grammar.match?_of_derives first inner (same ▸ h) follows]
    · have member' : alternative ∈ others := (List.mem_cons.1 member).resolve_left same
      have solid' : Grammar.nullable alternative = false := solid_of_mem later member'
      have starts : Follows alternative (tokens ++ rest) := by
        cases tokens with
        | nil =>
          rw [Grammar.nullable_of_derives alternative h] at solid'
          cases solid'
        | cons token tokens =>
          rintro _ ⟨rfl⟩
          exact Grammar.canStart_of_derives alternative h
      have missing := match?_of_apart solid
        (apart first List.mem_cons_self alternative member fun equal => same equal.symm) starts
      have rest := Grammar.firstMatch?_of_derives others
        (fun one isOne other isOther =>
          apart one (List.mem_cons_of_mem first isOne) other (List.mem_cons_of_mem first isOther))
        later member' h follows
      rw [missing]
      exact rest

end

/-! ## Whole token lists -/

/-- **Predictive grammars need no second try.** A predictive grammar takes all tokens of a list if and only
if it describes the list, and it binds each name to the last token under this name in the description. -/
theorem match?_iff_derives {grammar : Grammar} (predictive : Grammar.Predictive [] grammar)
    (tokens : List String) :
    ((∃ found, Grammar.match? tokens grammar = some found ∧ found.tokenCount = tokens.length) ↔
      ∃ bound, Grammar.Derives grammar tokens bound) ∧
    ∀ bound, Grammar.Derives grammar tokens bound →
      ∃ found, Grammar.match? tokens grammar = some found ∧ found.tokenCount = tokens.length ∧
        ∀ name, found.arguments.get? name = Members.find? bound.reverse name := by
  have complete : ∀ bound, Grammar.Derives grammar tokens bound →
      Grammar.match? tokens grammar = some (.ofRun tokens bound) := by
    intro bound derives
    have nothing : Follows [] [] := fun token member => by cases member
    have fits := Grammar.match?_of_derives grammar predictive derives nothing
    rwa [List.append_nil] at fits
  refine ⟨⟨?_, fun ⟨bound, derives⟩ => ⟨_, complete bound derives, rfl⟩⟩, fun bound derives =>
    ⟨_, complete bound derives, rfl, Bindings.get?_ofList bound⟩⟩
  rintro ⟨found, fits, all⟩
  obtain ⟨front, back, bound, rfl, rfl, derives⟩ := Grammar.derives_of_match? grammar fits
  rw [Match.ofRun, List.length_append, Nat.left_eq_add, List.length_eq_zero_iff] at all
  rw [all, List.append_nil]
  exact ⟨bound, derives⟩

/-- An optional part is taken or left by the next token, and so is an alternative. -/
theorem match?_iff_derives_show :
    let grammar : Grammar :=
      [.literal ["show"] false, .optional [.literal ["the"] false],
        .choices [[.literal ["emoticon"] false], [.literal ["smiley"] false, .argument "name"]],
        .optional [.literal ["for"] false, .argument "duration"]]
    Grammar.Predictive [] grammar ∧
      ∃ found, Grammar.match? ["show", "Smiley", "wave", "for", "5s"] grammar = some found ∧
        found.tokenCount = 5 ∧ found.arguments.get? "name" = some "wave" := by
  intro grammar
  have predictive : Grammar.Predictive [] grammar := by
    have different : foldCase "the" ≠ foldCase "emoticon" ∧ foldCase "the" ≠ foldCase "smiley" ∧
        foldCase "emoticon" ≠ foldCase "smiley" := by
      decide +kernel
    have the : ∀ token, foldCase "the" = foldCase token →
        foldCase "emoticon" ≠ foldCase token ∧ foldCase "smiley" ≠ foldCase token := by
      rintro token same
      exact ⟨same ▸ different.1.symm, same ▸ different.2.1.symm⟩
    have emoticon : ∀ token, foldCase "emoticon" = foldCase token →
        foldCase "smiley" ≠ foldCase token :=
      fun token same => same ▸ different.2.2.symm
    have smiley : ∀ token, foldCase "smiley" = foldCase token →
        foldCase "emoticon" ≠ foldCase token :=
      fun token same => same ▸ different.2.2
    simpa [grammar, Grammar.Predictive, Part.Predictive, Grammar.AllPredictive, Grammar.nullable,
      Part.nullable, Grammar.anyNullable, Apart, Grammar.canStart, Grammar.anyCanStart, Part.canStart,
      tokenFits] using ⟨the, emoticon, smiley⟩
  have word : ∀ expected token : String, tokenFits false expected token = true →
      Part.Derives (.literal [expected] false) [token] [] :=
    fun expected token fits => .literal (.cons fits .nil)
  have smiley := Grammar.Derives.cons (word "smiley" "Smiley" (by decide +kernel))
    (.cons (.argument "name" "wave") .nil)
  have wait := Grammar.Derives.cons (word "for" "for" (by decide +kernel))
    (.cons (.argument "duration" "5s") .nil)
  have derives : Grammar.Derives grammar ["show", "Smiley", "wave", "for", "5s"]
      [("name", "wave"), ("duration", "5s")] :=
    .cons (word "show" "show" (by decide +kernel))
      (.cons (.absent _) (.cons (.choice (by simp) smiley) (.cons (.present wait) .nil)))
  obtain ⟨found, fits, all, binds⟩ := (match?_iff_derives predictive _).2 _ derives
  exact ⟨predictive, found, fits, all, binds "name"⟩

end Phrasebook
