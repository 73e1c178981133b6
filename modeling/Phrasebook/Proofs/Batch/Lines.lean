import Phrasebook.Proofs.Batch.Execute
import Phrasebook.Proofs.Input.Tokens

/-!
# Inputs of several lines

No token reaches over a line break from a text that can be read by itself, so the calls of two texts with a
line break between them are those of the first and then those of the second. They are resolved one by one,
and executed as two batches would be, of which the second is run unless the first ends in a failure:
`executeEach_lineBreak` for handlers in any monad. `lineBreak_divides` puts the statements together.
-/

namespace Phrasebook

open Phrasebook.Text Phrasebook.Value Phrasebook.Input

/-! ## Calls -/

namespace Input

theorem splitCalls_ne_nil (found : List Lexeme) : splitCalls found ≠ [] := by
  cases found with
  | nil => exact List.cons_ne_nil _ _
  | cons lexeme found =>
    cases lexeme with
    | separator => exact List.cons_ne_nil _ _
    | token token =>
      rw [splitCalls]
      cases splitCalls found <;> exact List.cons_ne_nil _ _

theorem splitCalls_separator (front back : List Lexeme) :
    splitCalls (front ++ .separator :: back) = splitCalls front ++ splitCalls back := by
  induction front with
  | nil => rfl
  | cons lexeme front ih =>
    cases lexeme with
    | separator => rw [List.cons_append, splitCalls, ih, splitCalls, List.cons_append]
    | token token =>
      rw [List.cons_append, splitCalls, ih, splitCalls]
      cases pieces : splitCalls front with
      | nil => exact absurd pieces (splitCalls_ne_nil front)
      | cons piece more => rfl

/-- The calls in front of a separator, and those behind it. -/
theorem calls_separator (front back : List Lexeme) :
    calls (front ++ .separator :: back) = calls front ++ calls back := by
  rw [calls, splitCalls_separator, List.filter_append, calls, calls]

/-- The calls of a text with a line break in it, if the part in front of the break can be read. -/
theorem readCalls_lineBreak {front : List Char} {found : List (List (List Char))}
    (h : readCalls front = .ok found) {c : Char} (breaks : isLineBreak c = true) (back : List Char) :
    readCalls (front ++ c :: back) = (readCalls back).map (found ++ ·) := by
  have separator : separates c = true := by rw [separates, breaks, Bool.true_or]
  rw [readCalls] at h
  cases read : lexemes front with
  | error fault => rw [read] at h; cases h
  | ok lexed =>
    rw [read] at h
    cases h
    have divided := (lexes_of_lexemes read).lexemes_append_lineBreak (stops_cons breaks back)
    rw [readCalls, divided, lexemes_separator separator, readCalls]
    cases lexemes back with
    | error fault => rfl
    | ok more => exact congrArg Except.ok (calls_separator lexed more)

theorem tokenize_lineBreak {front : String} {found : List (List String)}
    (h : tokenize front = .ok found) {c : Char} (breaks : isLineBreak c = true) (back : String) :
    (tokenize (front ++ String.singleton c ++ back)).toOption =
      (tokenize back).toOption.map (found ++ ·) := by
  have spelled : (front ++ String.singleton c ++ back).toList = front.toList ++ c :: back.toList := by
    simp
  rw [tokenize] at h
  cases read : readCalls front.toList with
  | error fault => rw [read] at h; cases h
  | ok calls =>
    rw [read] at h
    cases h
    rw [tokenize, spelled, readCalls_lineBreak read breaks, tokenize]
    cases readCalls back.toList with
    | error fault => rfl
    | ok more => simp [Except.map, Except.toOption]

end Input

/-! ## Resolutions -/

variable {σ N : Type}

theorem resolveCalls_append {commands : List (Command σ N)} {front back : List (List String)}
    {resolutions more : List (Resolution σ N)} (h : resolveCalls commands front = .ok resolutions)
    (h' : resolveCalls commands back = .ok more) :
    resolveCalls commands (front ++ back) = .ok (resolutions ++ more) := by
  induction front generalizing resolutions with
  | nil =>
    cases h
    exact h'
  | cons call front ih =>
    rw [resolveCalls] at h
    cases first : resolve call commands with
    | none => simp [first] at h
    | some resolution =>
      cases later : resolveCalls commands front with
      | error failure => simp [first, later] at h
      | ok others =>
        simp only [first, later, Except.ok.injEq] at h
        rw [← h, List.cons_append, resolveCalls, first, ih later]
        rfl

theorem resolveInput_lineBreak {front back : String} {commands : List (Command σ N)}
    {resolutions more : List (Resolution σ N)}
    (h : resolveInput front commands = .ok resolutions) (h' : resolveInput back commands = .ok more)
    {c : Char} (breaks : isLineBreak c = true) :
    resolveInput (front ++ String.singleton c ++ back) commands = .ok (resolutions ++ more) := by
  rw [resolveInput] at h h'
  cases read : tokenize front with
  | error fault => simp [read] at h
  | ok found =>
    cases readBack : tokenize back with
    | error fault => simp [readBack] at h'
    | ok others =>
      simp only [read] at h
      simp only [readBack] at h'
      have divided := tokenize_lineBreak read breaks back
      rw [readBack] at divided
      cases whole : tokenize (front ++ String.singleton c ++ back) with
      | error fault => rw [whole] at divided; cases divided
      | ok calls =>
        rw [whole] at divided
        rw [resolveInput, whole, Option.some.inj divided]
        exact resolveCalls_append h h'

/-! ## Batches -/

/-- Whether the last of several outputs tells of a failure. -/
def endsInFailure (outputs : List Output) : Bool :=
  outputs.getLast?.any Output.isFailure

theorem endsInFailure_value_cons (value : Option Value) (outputs : List Output) :
    endsInFailure (.value value :: outputs) = endsInFailure outputs := by
  cases outputs with
  | nil => rfl
  | cons output outputs => rw [endsInFailure, List.getLast?_cons_cons, endsInFailure]

section

variable {m : Type → Type} [Monad m]

/-- Runs a batch, and behind it another one unless a failure ended the first. -/
def runBoth (first second : m (List Output)) : m (List Output) := do
  let outputs ← first
  if endsInFailure outputs then pure outputs
  else do
    let more ← second
    pure (outputs ++ more)

variable [LawfulMonad m]

/-- Calls are run behind others unless one of those fails. -/
theorem runCalls_append (handler : Resolution σ N → m Answer) (calls more : List (Resolution σ N)) :
    runCalls handler (calls ++ more) = runBoth (runCalls handler calls) (runCalls handler more) := by
  induction calls with
  | nil => simp [runCalls, runBoth, endsInFailure]
  | cons call calls ih =>
    rw [List.cons_append, runCalls, runCalls, runBoth, bind_assoc]
    refine bind_congr fun answer => ?_
    cases answer with
    | error failure => simp [endsInFailure, Output.isFailure]
    | ok value =>
      simp only [ih, runBoth, bind_assoc, pure_bind, endsInFailure_value_cons]
      refine bind_congr fun outputs => ?_
      cases endsInFailure outputs with
      | true => simp
      | false => simp

/-- Two texts with a line break between them are executed one behind the other. -/
theorem executeEach_lineBreak (handler : Resolution σ N → m Answer) {front back : String}
    {commands : List (Command σ N)} {resolutions more : List (Resolution σ N)}
    (h : resolveInput front commands = .ok resolutions) (h' : resolveInput back commands = .ok more)
    {c : Char} (breaks : isLineBreak c = true) :
    executeEach handler (front ++ String.singleton c ++ back) commands =
      runBoth (executeEach handler front commands) (executeEach handler back commands) := by
  rw [executeEach_of_ok (resolveInput_lineBreak h h' breaks), executeEach_of_ok h,
    executeEach_of_ok h']
  exact runCalls_append handler resolutions more

end

/-- With a state, the second batch begins in the state that the first leaves. -/
theorem runBoth_apply (first second : StateM σ (List Output)) (state : σ) :
    (runBoth first second state).1 =
      if endsInFailure (first state).1 then (first state).1
      else (first state).1 ++ (second (first state).2).1 := by
  change ((if endsInFailure (first state).1 then pure (first state).1
    else do
      let more ← second
      pure ((first state).1 ++ more) : StateM σ (List Output)) (first state).2).1 = _
  split
  · rfl
  · rfl

/-- A handler that is a function of the call leaves the state alone. -/
theorem runCalls_pure (answer : Resolution σ N → Answer) (calls : List (Resolution σ N)) (state : σ) :
    (runCalls (fun call => (pure (answer call) : StateM σ Answer)) calls state).2 = state := by
  induction calls with
  | nil => rfl
  | cons call calls ih =>
    rw [runCalls_cons]
    cases answer call with
    | error failure => rfl
    | ok value => exact ih

/-- The outputs for two texts with a line break between them, where no call depends on those before it. -/
theorem executeWith_lineBreak (answer : Call N → Answer) {front back : String}
    {commands : List (Command σ N)} {resolutions more : List (Resolution σ N)}
    (h : resolveInput front commands = .ok resolutions) (h' : resolveInput back commands = .ok more)
    {c : Char} (breaks : isLineBreak c = true) (state : σ) :
    let outputs (input : String) : List Output :=
      (executeWith (fun call => pure (answer call)) input commands state).1
    outputs (front ++ String.singleton c ++ back) =
      if endsInFailure (outputs front) then outputs front else outputs front ++ outputs back := by
  intro outputs
  have unchanged : (executeWith (fun call => pure (answer call)) front commands state).2 = state := by
    rw [executeWith, executeEach_of_ok h]
    exact runCalls_pure (fun resolution => answer resolution.call) resolutions state
  have both := executeEach_lineBreak
    (fun resolution => (pure (answer resolution.call) : StateM σ Answer)) h h' breaks
  simp only [outputs, executeWith] at unchanged ⊢
  rw [both, runBoth_apply, unchanged]
  rfl

/-- **Lines.** Behind a text that can be read, a line break divides an input: the input can be read if and
only if the text behind the break can, and its calls are those of the first text and then those of the
second. If both resolve, so do their calls together, and a handler that is a function of the call gives the
outputs for the first, with those for the second behind them unless a failure is the last one. -/
theorem lineBreak_divides {front : String} {found : List (List String)}
    (h : tokenize front = .ok found) {c : Char} (breaks : isLineBreak c = true) (back : String) :
    ((∃ calls, tokenize (front ++ String.singleton c ++ back) = .ok calls) ↔
      ∃ calls, tokenize back = .ok calls) ∧
    (∀ more, tokenize back = .ok more →
      tokenize (front ++ String.singleton c ++ back) = .ok (found ++ more)) ∧
    ∀ {σ N : Type} (commands : List (Command σ N)) (resolutions more : List (Resolution σ N)),
      resolveInput front commands = .ok resolutions → resolveInput back commands = .ok more →
      resolveInput (front ++ String.singleton c ++ back) commands = .ok (resolutions ++ more) ∧
      ∀ (answer : Call N → Answer) (state : σ),
        let outputs (input : String) : List Output :=
          (executeWith (fun call => pure (answer call)) input commands state).1
        outputs (front ++ String.singleton c ++ back) =
          if endsInFailure (outputs front) then outputs front
          else outputs front ++ outputs back := by
  have divided := tokenize_lineBreak h breaks back
  refine ⟨?_, ?_, fun commands resolutions more resolves resolvesBack => ⟨?_, ?_⟩⟩
  · cases whole : tokenize (front ++ String.singleton c ++ back) <;> cases more : tokenize back <;>
      simp_all [Except.toOption]
  · intro more read
    rw [read] at divided
    cases whole : tokenize (front ++ String.singleton c ++ back) with
    | error fault => rw [whole] at divided; cases divided
    | ok calls => rw [whole] at divided; exact congrArg Except.ok (Option.some.inj divided)
  · exact resolveInput_lineBreak resolves resolvesBack breaks
  · exact fun answer state => executeWith_lineBreak answer resolves resolvesBack breaks state

/-- The bare value behind a comment ends in front of the line break, here a line separator. -/
theorem lineBreak_divides_comment :
    tokenize "a # b\nc" = .ok [["a", "# b\nc"]] ∧ isLineBreak '\u2028' = true ∧
      tokenize "a # b\nc\u2028d 'e\n'" = .ok [["a", "# b\nc"], ["d", "'e\n'"]] := by
  have front : tokenize "a # b\nc" = .ok [["a", "# b\nc"]] := by
    simp [tokenize, readCalls, lexemes_cons, lexemes_nil, startsValue, separates, isLineBreak,
      isBlank, readWord, endsWord, readElement_eq, skipTrivia, skipLineComment, readBare, endsBare,
      calls, splitCalls, consToken, Except.map]
  have back : tokenize "d 'e\n'" = .ok [["d", "'e\n'"]] := by
    simp [tokenize, readCalls, lexemes_cons, lexemes_nil, startsValue, separates, isLineBreak,
      isBlank, readWord, endsWord, readElement_eq, skipTrivia, readQuoted_cons, calls, splitCalls,
      consToken, Except.map]
  have breaks : isLineBreak '\u2028' = true := by decide
  exact ⟨front, breaks, (lineBreak_divides front breaks "d 'e\n'").2.1 _ back⟩

end Phrasebook
