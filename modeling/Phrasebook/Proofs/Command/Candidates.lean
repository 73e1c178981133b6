import Phrasebook.CommandLine.Run
import Phrasebook.Proofs.Batch.Execute
import Phrasebook.Proofs.Grammar.Language

/-!
# All ways to resolve agree

A call can be resolved by itself, as one of the calls of an input, as its only call, or by listing all
candidates. A match takes no more tokens than there are, so all candidates for a call take the same
number of them, none is better than an earlier one, and the first one is chosen: `resolve_eq_head?`.

Only the grammars of the commands count, so that commands that are changed otherwise take the same calls
(`resolveInput_change`).

`TokensAgree` and `InputAgrees` say what this means for the tokens of one call and for an input;
`resolutions_agree` says that it holds of all of them, and of what the program prints.
-/

namespace Phrasebook

open Phrasebook.Input

variable {σ N : Type}

/-! ## Calls -/

/-- A candidate is the command with its match, which takes exactly the tokens that there are. -/
theorem Command.of_fullMatch? {command : Command σ N} {tokens : List String}
    {candidate : Resolution σ N} (h : command.fullMatch? tokens = some candidate) :
    candidate.command = command ∧ Grammar.match? tokens command.grammar = some candidate.found ∧
      candidate.found.tokenCount = tokens.length := by
  rw [Command.fullMatch?, Command.match?] at h
  split at h
  · cases h
  · next found fits =>
    have bound : found.tokenCount ≤ tokens.length := tokenCount_le_of_match? fits
    split at h
    · cases h
    · next enough =>
      cases h
      exact ⟨rfl, fits, Nat.le_antisymm bound (Nat.not_lt.1 enough)⟩

theorem Command.tokenCount_of_fullMatch? {command : Command σ N} {tokens : List String}
    {candidate : Resolution σ N} (h : command.fullMatch? tokens = some candidate) :
    candidate.found.tokenCount = tokens.length :=
  (Command.of_fullMatch? h).2.2

/-- A candidate that takes all tokens is not replaced by another one. -/
theorem foldl_better {tokens : List String} (commands : List (Command σ N))
    {best : Option (Resolution σ N)}
    (whole : ∀ current ∈ best, current.found.tokenCount = tokens.length) :
    commands.foldl (fun best command =>
        match command.fullMatch? tokens with
        | none => best
        | some candidate => better best candidate) best =
      best.or (findMatches tokens commands).head? := by
  induction commands generalizing best with
  | nil => exact (Option.or_none).symm
  | cons command commands ih =>
    rw [List.foldl_cons]
    cases fits : command.fullMatch? tokens with
    | none => rw [ih whole, findMatches, findMatches, List.filterMap_cons_none fits]
    | some candidate =>
      have count := Command.tokenCount_of_fullMatch? fits
      rw [findMatches, List.filterMap_cons_some fits, List.head?_cons]
      cases best with
      | none =>
        have wholeNow : ∀ current ∈ some candidate, current.found.tokenCount = tokens.length := by
          rintro current ⟨rfl⟩
          exact count
        exact (ih wholeNow).trans rfl
      | some current =>
        have kept : better (some current) candidate = some current := by
          rw [better, whole current rfl, count]
          exact if_neg (Nat.lt_irrefl _)
        exact (congrArg (List.foldl _ · commands) kept).trans (ih whole)

/-- The first candidate is chosen. -/
theorem resolve_eq_head? (tokens : List String) (commands : List (Command σ N)) :
    resolve tokens commands = (findMatches tokens commands).head? := by
  have nothing : ∀ current ∈ (none : Option (Resolution σ N)),
      current.found.tokenCount = tokens.length := fun current member => by cases member
  exact foldl_better commands nothing

/-- What tokens call is one of the commands, with its match. -/
theorem of_resolve {tokens : List String} {commands : List (Command σ N)}
    {resolution : Resolution σ N} (h : resolve tokens commands = some resolution) :
    resolution.command ∈ commands ∧
      Grammar.match? tokens resolution.command.grammar = some resolution.found := by
  rw [resolve_eq_head?] at h
  obtain ⟨command, member, candidate⟩ := List.mem_filterMap.1 (List.mem_of_mem_head? h)
  obtain ⟨rfl, fits, -⟩ := Command.of_fullMatch? candidate
  exact ⟨member, fits⟩

theorem resolve_eq_none_iff {tokens : List String} {commands : List (Command σ N)} :
    resolve tokens commands = none ↔ findMatches tokens commands = [] := by
  rw [resolve_eq_head?, List.head?_eq_none_iff]

/-- A list with at most one element is the only arrangement of it. -/
theorem eq_of_perm_of_length_le_one {α : Type} {items items' : List α} (h : items.Perm items')
    (one : items.length ≤ 1) : items = items' := by
  match items, one with
  | [], _ => exact (List.nil_perm.1 h).symm
  | [item], _ => exact List.singleton_perm.1 h

/-- All ways to resolve the tokens of one call. -/
structure TokensAgree (tokens : List String) (commands : List (Command σ N)) : Prop where
  /-- What is chosen is the first candidate, and nothing is if there is none. -/
  first : resolve tokens commands = (findMatches tokens commands).head?
  /-- The candidates and what is chosen take all tokens. -/
  whole : ∀ resolution, (resolution ∈ findMatches tokens commands ∨
    resolve tokens commands = some resolution) → resolution.found.tokenCount = tokens.length
  /-- Where there is one candidate at most, the order of the commands does not matter. -/
  order : (findMatches tokens commands).length ≤ 1 → ∀ commands' : List (Command σ N),
    commands'.Perm commands → resolve tokens commands' = resolve tokens commands

theorem tokensAgree (tokens : List String) (commands : List (Command σ N)) :
    TokensAgree tokens commands := by
  have whole : ∀ resolution ∈ findMatches tokens commands,
      resolution.found.tokenCount = tokens.length := by
    intro resolution member
    obtain ⟨command, -, fits⟩ := List.mem_filterMap.1 member
    exact Command.tokenCount_of_fullMatch? fits
  refine ⟨resolve_eq_head? tokens commands, ?_, ?_⟩
  · rintro resolution (member | chosen)
    · exact whole resolution member
    · rw [resolve_eq_head?] at chosen
      exact whole resolution (List.mem_of_mem_head? chosen)
  · intro one commands' perm
    have same : findMatches tokens commands = findMatches tokens commands' :=
      eq_of_perm_of_length_le_one (perm.symm.filterMap _) one
    rw [resolve_eq_head?, resolve_eq_head?, same]

/-! ## Inputs -/

theorem resolveCalls_eq_ok_iff {commands : List (Command σ N)} {calls : List (List String)}
    {resolutions : List (Resolution σ N)} :
    resolveCalls commands calls = .ok resolutions ↔
      List.Forall₂ (fun tokens resolution => resolve tokens commands = some resolution) calls
        resolutions := by
  induction calls generalizing resolutions with
  | nil =>
    rw [resolveCalls, List.forall₂_nil_left_iff, Except.ok.injEq]
    exact eq_comm
  | cons tokens calls ih =>
    rw [resolveCalls, List.forall₂_cons_left_iff]
    cases first : resolve tokens commands with
    | none => simp
    | some resolution =>
      cases others : resolveCalls commands calls with
      | error failure =>
        have never : ∀ more, ¬ List.Forall₂
            (fun tokens resolution => resolve tokens commands = some resolution) calls more := by
          intro more related
          rw [ih.2 related] at others
          cases others
        simp [never]
      | ok more =>
        constructor
        · intro h
          cases h
          exact ⟨resolution, more, rfl, ih.1 others, rfl⟩
        · rintro ⟨resolution', more', same, related, rfl⟩
          rw [ih.2 related] at others
          cases same
          cases others
          rfl

/-- The first call that no command takes is named. -/
theorem resolveCalls_of_unknown {commands : List (Command σ N)} {before : List (List String)}
    {tokens : List String} (known : ∀ call ∈ before, findMatches call commands ≠ [])
    (unknown : findMatches tokens commands = []) (after : List (List String)) :
    resolveCalls commands (before ++ tokens :: after) = .error (.commandNotFound tokens) := by
  induction before with
  | nil => rw [List.nil_append, resolveCalls, resolve_eq_none_iff.2 unknown]
  | cons call before ih =>
    have isKnown : resolve call commands ≠ none :=
      fun missing => known call List.mem_cons_self (resolve_eq_none_iff.1 missing)
    obtain ⟨resolution, resolves⟩ := Option.ne_none_iff_exists'.1 isKnown
    rw [List.cons_append, resolveCalls, resolves,
      ih fun call member => known call (List.mem_cons_of_mem _ member)]

theorem exists_resolveCalls_iff {commands : List (Command σ N)} {calls : List (List String)} :
    (∃ resolutions, resolveCalls commands calls = .ok resolutions) ↔
      ∀ tokens ∈ calls, findMatches tokens commands ≠ [] := by
  cases resolves : resolveCalls commands calls with
  | error failure =>
    obtain ⟨tokens, member, missing⟩ := exists_error_resolveCalls.1 ⟨failure, resolves⟩
    refine ⟨fun ⟨resolutions, h⟩ => (by cases h), fun known => ?_⟩
    exact absurd (resolve_eq_none_iff.1 missing) (known tokens member)
  | ok resolutions =>
    refine ⟨fun _ tokens member unknown => ?_, fun _ => ⟨resolutions, rfl⟩⟩
    obtain ⟨failure, fails⟩ :=
      exists_error_resolveCalls.2 ⟨tokens, member, resolve_eq_none_iff.2 unknown⟩
    rw [resolves] at fails
    cases fails

/-- An input has one call that resolves if and only if its only call has candidates, and it resolves to
the first of them. -/
theorem resolveSingle_eq_ok_iff {input : String} {commands : List (Command σ N)}
    {resolution : Resolution σ N} :
    resolveSingle input commands = .ok resolution ↔
      ∃ found, findInputMatches input commands = .ok found ∧ found.head? = some resolution := by
  rw [resolveSingle, resolveInput, findInputMatches, tokenizeSingle]
  cases tokenize input with
  | error fault => simp
  | ok calls =>
    cases calls with
    | nil => simp [resolveCalls]
    | cons tokens more => cases more with
      | nil =>
        simp only [resolveCalls, Except.ok.injEq, exists_eq_left', ← resolve_eq_head?]
        cases resolve tokens commands with
        | none => simp
        | some chosen => simp
      | cons next more =>
        -- several calls resolve to several resolutions or to none
        cases resolves : resolveCalls commands (tokens :: next :: more) with
        | error failure => simp [resolves]
        | ok resolutions =>
          cases resolveCalls_eq_ok_iff.1 resolves with
          | cons _ later => cases later with
            | cons _ _ => simp [resolves]

/-- All ways to resolve an input. -/
structure InputAgrees (input : String) (commands : List (Command σ N)) : Prop where
  /-- An input resolves when it can be read and each of its calls has a candidate. -/
  succeeds : (∃ resolutions, resolveInput input commands = .ok resolutions) ↔
    ∃ calls, tokenize input = .ok calls ∧ ∀ tokens ∈ calls, findMatches tokens commands ≠ []
  /-- Its calls then resolve to their first candidates, in order. -/
  resolved : ∀ calls resolutions, tokenize input = .ok calls →
    resolveInput input commands = .ok resolutions →
    List.Forall₂ (fun tokens resolution =>
      (findMatches tokens commands).head? = some resolution) calls resolutions
  /-- An input that cannot be read fails as reading it does. -/
  malformed : ∀ fault, tokenize input = .error fault →
    resolveInput input commands = .error (.input fault)
  /-- One that can be read fails with the tokens of the first call without a candidate. -/
  unknown : ∀ before tokens after, tokenize input = .ok (before ++ tokens :: after) →
    (∀ call ∈ before, findMatches call commands ≠ []) → findMatches tokens commands = [] →
    resolveInput input commands = .error (.commandNotFound tokens)
  /-- Resolving the only call and listing the candidates for it succeed together, and the first candidate
  is what it resolves to. -/
  single : ∀ resolution, resolveSingle input commands = .ok resolution ↔
    ∃ found, findInputMatches input commands = .ok found ∧ found.head? = some resolution

theorem inputAgrees (input : String) (commands : List (Command σ N)) :
    InputAgrees input commands := by
  refine ⟨?_, ?_, ?_, ?_, fun resolution => resolveSingle_eq_ok_iff⟩
  · rw [resolveInput]
    cases tokenize input with
    | error fault => simp
    | ok calls => simpa using exists_resolveCalls_iff
  · intro calls resolutions read resolves
    rw [resolveInput, read] at resolves
    simpa only [resolve_eq_head?] using resolveCalls_eq_ok_iff.1 resolves
  · intro fault read
    rw [resolveInput, read]
  · intro before tokens after read known unknown
    rw [resolveInput, read]
    exact resolveCalls_of_unknown known unknown after

/-! ## Commands that are changed -/

/-- The same match of a changed command. -/
def Resolution.mapCommand (change : Command σ N → Command σ N) (resolution : Resolution σ N) :
    Resolution σ N :=
  ⟨change resolution.command, resolution.found⟩

section

variable {change : Command σ N → Command σ N}
  (same : ∀ command, (change command).grammar = command.grammar)

include same

theorem Command.fullMatch?_change (command : Command σ N) (tokens : List String) :
    (change command).fullMatch? tokens =
      (command.fullMatch? tokens).map (Resolution.mapCommand change) := by
  rw [Command.fullMatch?, Command.fullMatch?, Command.match?, Command.match?, same]
  cases Grammar.match? tokens command.grammar with
  | none => rfl
  | some found =>
    dsimp only
    split <;> rfl

/-- Changed commands with the same grammars take the same calls. -/
theorem resolve_change (tokens : List String) (commands : List (Command σ N)) :
    resolve tokens (commands.map change) =
      (resolve tokens commands).map (Resolution.mapCommand change) := by
  have candidates : findMatches tokens (commands.map change) =
      (findMatches tokens commands).map (Resolution.mapCommand change) := by
    rw [findMatches, findMatches, List.filterMap_map, List.map_filterMap]
    exact congrArg (List.filterMap · commands)
      (funext fun command => Command.fullMatch?_change same command tokens)
  rw [resolve_eq_head?, resolve_eq_head?, candidates, List.head?_map]

theorem resolveCalls_change (commands : List (Command σ N)) (calls : List (List String)) :
    resolveCalls (commands.map change) calls =
      (resolveCalls commands calls).map (List.map (Resolution.mapCommand change)) := by
  induction calls with
  | nil => rfl
  | cons tokens calls ih =>
    rw [resolveCalls, resolveCalls, resolve_change same, ih]
    cases resolve tokens commands with
    | none => rfl
    | some resolution => cases resolveCalls commands calls <;> rfl

theorem resolveInput_change (input : String) (commands : List (Command σ N)) :
    resolveInput input (commands.map change) =
      (resolveInput input commands).map (List.map (Resolution.mapCommand change)) := by
  rw [resolveInput, resolveInput]
  cases Input.tokenize input with
  | error fault => rfl
  | ok calls => exact resolveCalls_change same commands calls

end

/-! ## The program -/

/-- Where all candidates are asked for, the program names first the one that it calls by itself. -/
theorem resolvedCalls_singleton_iff {input : String} {commands : List (Command Unit String)}
    {call : Call String} :
    CommandLine.resolvedCalls input false commands = .ok [call] ↔
      ∃ others, CommandLine.resolvedCalls input true commands = .ok (call :: others) := by
  have chosen : CommandLine.resolvedCalls input false commands = .ok [call] ↔
      ∃ resolution, resolveSingle input commands = .ok resolution ∧ resolution.call = call := by
    rw [CommandLine.resolvedCalls, resolveSingle]
    cases resolveInput input commands with
    | error failure => simp
    | ok resolutions =>
      match resolutions with
      | [] => simp
      | [resolution] => simp
      | resolution :: next :: more => simp
  have listed : (∃ others, CommandLine.resolvedCalls input true commands = .ok (call :: others)) ↔
      ∃ resolution, (∃ found, findInputMatches input commands = .ok found ∧
        found.head? = some resolution) ∧ resolution.call = call := by
    rw [CommandLine.resolvedCalls]
    cases findInputMatches input commands with
    | error failure => simp
    | ok found =>
      cases found with
      | nil => simp
      | cons resolution others => simp
  rw [chosen, listed]
  simp only [resolveSingle_eq_ok_iff]

/-- **Resolutions agree.** For the tokens of a call, for an input, and for the program, which way is taken to
resolve makes no difference: the first command that takes all tokens is called. -/
theorem resolutions_agree (input : String) (commands : List (Command σ N)) :
    (∀ tokens, TokensAgree tokens commands) ∧ InputAgrees input commands ∧
      ∀ (known : List (Command Unit String)) (call : Call String),
        CommandLine.resolvedCalls input false known = .ok [call] ↔
          ∃ others, CommandLine.resolvedCalls input true known = .ok (call :: others) :=
  ⟨fun tokens => tokensAgree tokens commands, inputAgrees input commands,
    fun _ _ => resolvedCalls_singleton_iff⟩

end Phrasebook
