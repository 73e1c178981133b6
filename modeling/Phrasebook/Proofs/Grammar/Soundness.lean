import Phrasebook.Proofs.Grammar.Language

/-!
# What a match tells about the tokens

A match takes tokens that are there, the grammar describes them, and the match binds what they bind in the
description: each name to the token under it that comes last, and no other name.

`Grammar.walk` matches the way a loop does, with what was found so far at hand and the tokens that are left
looked up by their place. A place behind the last token would be a fault, and `Grammar.walk_eq` says that
there is none. An optional part whose body does not fit, and an alternative that does not, leave no trace:
without them the match is the same. `match?_described` puts the statements together.
-/

namespace Phrasebook

/-! ## Last bindings -/

/-- Of the bindings of a name, made one after another, the last one is to the token. -/
def LastBinding (bound : List (String × String)) (name token : String) : Prop :=
  ∃ earlier later, bound = earlier ++ (name, token) :: later ∧ ∀ entry ∈ later, entry.1 ≠ name

namespace Bindings

/-- A name is bound to a token if that is its last binding. -/
theorem get?_ofList_eq_some_iff {bound : List (String × String)} {name token : String} :
    (ofList bound).get? name = some token ↔ LastBinding bound name token := by
  rw [get?_ofList, Members.find?_eq_some_iff]
  constructor
  · rintro ⟨front, back, equal, different⟩
    refine ⟨back.reverse, front.reverse, ?_, fun entry member =>
      different entry (List.mem_reverse.1 member)⟩
    rw [← List.reverse_reverse bound, equal]
    simp
  · rintro ⟨earlier, later, rfl, different⟩
    exact ⟨later.reverse, earlier.reverse, by simp, fun entry member =>
      different entry (List.mem_reverse.1 member)⟩

/-- The names that are bound are those of the bindings that were made. -/
theorem mem_names_ofList {bound : List (String × String)} {name : String} :
    name ∈ (ofList bound).names ↔ ∃ token, (name, token) ∈ bound := by
  rw [mem_names_iff]
  constructor
  · rintro ⟨token, found⟩
    obtain ⟨earlier, later, rfl, -⟩ := get?_ofList_eq_some_iff.1 found
    exact ⟨token, by simp⟩
  · rintro ⟨token, member⟩
    rw [get?_ofList]
    cases found : Members.find? bound.reverse name with
    | some last => exact ⟨last, rfl⟩
    | none => exact absurd (List.mem_reverse.2 member) (Members.notMem_of_find?_eq_none found token)

theorem append_assoc (first second third : Bindings) :
    (first.append second).append third = first.append (second.append third) := by
  refine ext_get? fun name => ?_
  rw [get?_append, get?_append, get?_append, get?_append, Option.or_assoc]

end Bindings

/-! ## One part after another -/

namespace Match

theorem empty_append (found : Match) : empty.append found = found := by
  rw [append, empty, Bindings.empty_append, Nat.zero_add]

theorem map_empty_append (found : Option Match) : found.map empty.append = found := by
  cases found with
  | none => rfl
  | some found => exact congrArg some (empty_append found)

theorem append_assoc (first second third : Match) :
    (first.append second).append third = first.append (second.append third) := by
  rw [append, append, append, append, Bindings.append_assoc, Nat.add_assoc]

end Match

/-- The parts at the end of a grammar are fitted to the tokens that those in front of them leave. -/
theorem Grammar.match?_append (tokens : List String) (front back : Grammar) :
    Grammar.match? tokens (front ++ back) =
      (Grammar.match? tokens front).bind fun first =>
        (Grammar.match? (tokens.drop first.tokenCount) back).map first.append := by
  induction front generalizing tokens with
  | nil =>
    rw [Grammar.match?, Option.bind_some, Match.map_empty_append]
    rfl
  | cons part front ih =>
    rw [List.cons_append, Grammar.match?, Grammar.match?]
    cases part.match? tokens with
    | none => rfl
    | some first =>
      simp only [ih]
      cases Grammar.match? (tokens.drop first.tokenCount) front with
      | none => rfl
      | some second =>
        simp only [Option.bind_some, Match.append, List.drop_drop]
        cases Grammar.match? (tokens.drop (first.tokenCount + second.tokenCount)) back with
        | none => rfl
        | some third => exact congrArg some (Match.append_assoc first second third).symm

/-! ## Places in the token list -/

/-- A place behind the last token was asked for. -/
structure OutOfRange where
  start : Nat
  length : Nat

/-- The tokens from a place on. -/
def slice (tokens : List String) (start : Nat) : Except OutOfRange (List String) :=
  if start ≤ tokens.length then .ok (tokens.drop start) else .error ⟨start, tokens.length⟩

mutual

/-- Fits a part to the front of a token list, looking up tokens by their places. -/
def Part.walk (tokens : List String) : Part → Except OutOfRange (Option Match)
  | .literal expected caseSensitive =>
    .ok (if tokensFit caseSensitive expected tokens then some ⟨expected.length, .empty⟩ else none)
  | .argument name =>
    .ok (tokens.head?.map fun token => ⟨1, Bindings.empty.insert name token⟩)
  | .optional body =>
    match Grammar.walk tokens .empty body with
    | .error fault => .error fault
    | .ok found => .ok (some (found.getD .empty))
  | .choices alternatives => Grammar.walkFirst tokens alternatives

/-- Fits the parts of a grammar behind what was found so far. -/
def Grammar.walk (tokens : List String) (found : Match) :
    List Part → Except OutOfRange (Option Match)
  | [] => .ok (some found)
  | part :: parts =>
    match slice tokens found.tokenCount with
    | .error fault => .error fault
    | .ok rest =>
      match part.walk rest with
      | .error fault => .error fault
      | .ok none => .ok none
      | .ok (some more) => Grammar.walk tokens (found.append more) parts

/-- The match of the first alternative that fits. -/
def Grammar.walkFirst (tokens : List String) :
    List (List Part) → Except OutOfRange (Option Match)
  | [] => .ok none
  | alternative :: alternatives =>
    match Grammar.walk tokens .empty alternative with
    | .error fault => .error fault
    | .ok (some found) => .ok (some found)
    | .ok none => Grammar.walkFirst tokens alternatives

end

/-- A part takes no more tokens than there are. -/
theorem Part.tokenCount_le_of_match? {part : Part} {tokens : List String} {found : Match}
    (h : part.match? tokens = some found) : found.tokenCount ≤ tokens.length := by
  obtain ⟨front, back, bound, rfl, rfl, -⟩ := Part.derives_of_match? part h
  rw [Match.ofRun, List.length_append]
  exact Nat.le_add_right _ _

mutual

theorem Part.walk_eq (part : Part) (tokens : List String) :
    part.walk tokens = .ok (part.match? tokens) := by
  match part with
  | .literal expected caseSensitive => rfl
  | .argument name => cases tokens <;> rfl
  | .optional body =>
    have inner := Grammar.walk_eq body tokens .empty (Nat.zero_le _)
    rw [Match.map_empty_append] at inner
    rw [Part.walk, inner]
    rfl
  | .choices alternatives => exact Grammar.walkFirst_eq alternatives tokens

/-- No place behind the last token is asked for, whatever was found before, as long as it is there. -/
theorem Grammar.walk_eq (grammar : List Part) (tokens : List String) (found : Match)
    (inRange : found.tokenCount ≤ tokens.length) :
    Grammar.walk tokens found grammar =
      .ok ((Grammar.match? (tokens.drop found.tokenCount) grammar).map found.append) := by
  match grammar with
  | [] => rfl
  | part :: parts =>
    rw [Grammar.walk, slice, if_pos inRange, Grammar.match?]
    simp only [Part.walk_eq part (tokens.drop found.tokenCount)]
    cases fits : part.match? (tokens.drop found.tokenCount) with
    | none => rfl
    | some more =>
      have taken := Part.tokenCount_le_of_match? fits
      rw [List.length_drop] at taken
      have inRange' : (found.append more).tokenCount ≤ tokens.length := by
        rw [Match.tokenCount_append]
        omega
      simp only [Grammar.walk_eq parts tokens (found.append more) inRange', List.drop_drop,
        Match.tokenCount_append]
      cases Grammar.match? (tokens.drop (found.tokenCount + more.tokenCount)) parts with
      | none => rfl
      | some later => exact congrArg (fun whole => Except.ok (some whole)) (Match.append_assoc _ _ _)

theorem Grammar.walkFirst_eq (alternatives : List (List Part)) (tokens : List String) :
    Grammar.walkFirst tokens alternatives = .ok (Grammar.firstMatch? tokens alternatives) := by
  match alternatives with
  | [] => rfl
  | alternative :: alternatives =>
    have first := Grammar.walk_eq alternative tokens .empty (Nat.zero_le _)
    rw [Match.map_empty_append] at first
    rw [Grammar.walkFirst, Grammar.firstMatch?, first]
    cases fits : Grammar.match? tokens alternative with
    | none => simp [fits, Grammar.walkFirst_eq alternatives tokens, Match.empty]
    | some found => simp [fits, Match.empty]

end

/-! ## What leaves no trace -/

/-- Without an optional part whose body does not fit where it stands, the match is the same. -/
theorem Grammar.match?_absent {tokens : List String} {front body : Grammar}
    (missing : ∀ first, Grammar.match? tokens front = some first →
      Grammar.match? (tokens.drop first.tokenCount) body = none) (back : Grammar) :
    Grammar.match? tokens (front ++ .optional body :: back) =
      Grammar.match? tokens (front ++ back) := by
  rw [Grammar.match?_append, Grammar.match?_append]
  refine Option.bind_congr fun first fits => ?_
  rw [Grammar.match?, Part.match?, missing first fits]
  simp only [Option.getD_none, Match.empty, List.drop_zero]
  cases Grammar.match? (tokens.drop first.tokenCount) back with
  | none => rfl
  | some later => exact congrArg (Option.map first.append ∘ some) (Match.empty_append later)

/-- Without an alternative that does not fit where it stands, the match is the same. -/
theorem Grammar.match?_rejected {tokens : List String} {front alternative : Grammar}
    (missing : ∀ first, Grammar.match? tokens front = some first →
      Grammar.match? (tokens.drop first.tokenCount) alternative = none)
    (others : List Grammar) (back : Grammar) :
    Grammar.match? tokens (front ++ .choices (alternative :: others) :: back) =
      Grammar.match? tokens (front ++ .choices others :: back) := by
  rw [Grammar.match?_append, Grammar.match?_append]
  refine Option.bind_congr fun first fits => ?_
  rw [Grammar.match?, Grammar.match?, Part.match?, Part.match?, Grammar.firstMatch?,
    missing first fits]

/-! ## Soundness -/

/-- What matching a grammar tells about the tokens. -/
structure Grammar.Described (grammar : Grammar) (tokens : List String) : Prop where
  /-- On the way, no place behind the last token is asked for. -/
  inRange : Grammar.walk tokens .empty grammar = .ok (Grammar.match? tokens grammar)
  /-- The tokens that are taken are there and the grammar describes them. What they bind in the description
  is bound by the match, each name to its last token, and nothing else is. -/
  taken : ∀ found, Grammar.match? tokens grammar = some found →
    found.tokenCount ≤ tokens.length ∧
    ∃ bound, Grammar.Derives grammar (tokens.take found.tokenCount) bound ∧
      (∀ name, name ∈ found.arguments.names ↔ ∃ token, (name, token) ∈ bound) ∧
      ∀ name token, found.arguments.get? name = some token ↔ LastBinding bound name token
  /-- An optional part whose body does not fit where it stands leaves no trace. -/
  absent : ∀ front body back, grammar = front ++ .optional body :: back →
    (∀ first, Grammar.match? tokens front = some first →
      Grammar.match? (tokens.drop first.tokenCount) body = none) →
    Grammar.match? tokens grammar = Grammar.match? tokens (front ++ back)
  /-- Nor does an alternative that does not fit where it stands. -/
  rejected : ∀ front alternative others back,
    grammar = front ++ .choices (alternative :: others) :: back →
    (∀ first, Grammar.match? tokens front = some first →
      Grammar.match? (tokens.drop first.tokenCount) alternative = none) →
    Grammar.match? tokens grammar = Grammar.match? tokens (front ++ .choices others :: back)

/-- **Matches are described.** Whatever the grammar and the tokens, a match takes tokens that are there in a
way that the grammar describes, and binds just what they bind in the description. -/
theorem match?_described (grammar : Grammar) (tokens : List String) : grammar.Described tokens := by
  refine ⟨?_, ?_, ?_, ?_⟩
  · rw [Grammar.walk_eq grammar tokens .empty (Nat.zero_le _), Match.map_empty_append]
    rfl
  · intro found fits
    obtain ⟨front, back, bound, rfl, rfl, derives⟩ := Grammar.derives_of_match? grammar fits
    refine ⟨tokenCount_le_of_match? fits, bound, ?_, fun name => Bindings.mem_names_ofList,
      fun name token => Bindings.get?_ofList_eq_some_iff⟩
    rwa [Match.ofRun, List.take_left]
  · rintro front body back rfl missing
    exact Grammar.match?_absent missing back
  · rintro front alternative others back rfl missing
    exact Grammar.match?_rejected missing others back

/-- A name that is bound again keeps the later token, and what the second optional part binds before it
turns out not to fit is not kept. -/
theorem match?_described_again :
    let grammar : Grammar :=
      [.argument "x", .optional [.argument "x"], .optional [.argument "y", .literal ["end"] false]]
    ∃ found, Grammar.match? ["a", "b", "c", "d"] grammar = some found ∧
      found.tokenCount = 2 ∧ found.arguments.names = ["x"] ∧
      Grammar.match? ["a", "b", "c", "d"] grammar =
        Grammar.match? ["a", "b", "c", "d"] [.argument "x", .optional [.argument "x"]] ∧
      ∃ bound, Grammar.Derives grammar ["a", "b"] bound ∧ LastBinding bound "x" "b" := by
  intro grammar
  have sound := match?_described grammar ["a", "b", "c", "d"]
  have fits : Grammar.match? ["a", "b", "c", "d"] grammar = some ⟨2, .ofList [("x", "b")]⟩ := by
    decide +kernel
  obtain ⟨-, bound, derives, -, last⟩ := sound.taken _ fits
  have front : Grammar.match? ["a", "b", "c", "d"] [.argument "x", .optional [.argument "x"]] =
      some ⟨2, .ofList [("x", "b")]⟩ := by
    decide +kernel
  refine ⟨_, fits, rfl, rfl, ?_, bound, derives, (last "x" "b").1 rfl⟩
  refine sound.absent [.argument "x", .optional [.argument "x"]] _ [] rfl fun first found => ?_
  rw [front] at found
  cases found
  decide +kernel

end Phrasebook
