import Phrasebook.Proofs.Batch.Steps
import Phrasebook.Proofs.Command.Candidates

/-!
# Batches of handlers that are awaited

A batch awaits each handler before it runs the next. So it does what it would do if every handler answered
at once (`run_executeEach`): a command with its handlers does what the command does whose one handler answers
as awaiting them would (`Command.settled`).

To speak of what happens while a handler is suspended, a handler is made to write down its start and its
completion in a log that nobody else touches (`traced`). At every point that a batch reaches, whatever
others do with the state meanwhile, the handlers in the log have run in turn (`InTurn`).

`Awaited` states all this for a handler of resolved calls, and `executesAsync_awaited` says that it holds of
`executeAsync` and of `executeAsyncWith`.
-/

namespace Phrasebook

open Resumable

variable {σ N : Type}

/-! ## Batches with changed commands -/

theorem runCalls_map {m : Type → Type} [Monad m] (handler : Resolution σ N → m Answer)
    (change : Resolution σ N → Resolution σ N) (calls : List (Resolution σ N)) :
    runCalls handler (calls.map change) = runCalls (fun call => handler (change call)) calls := by
  induction calls with
  | nil => rfl
  | cons call calls ih => rw [List.map_cons, runCalls, runCalls, ih]

theorem runCalls_logged_map (handler : Resolution σ N → StateM σ Answer)
    (change : Resolution σ N → Resolution σ N) (calls log : List (Resolution σ N)) (state : σ) :
    (runCalls (logged handler) (calls.map change) (state, log.map change)).2.2 =
      (runCalls (logged fun call => handler (change call)) calls (state, log)).2.2.map change := by
  induction calls generalizing log state with
  | nil => rfl
  | cons call calls ih =>
    rw [List.map_cons, runCalls_logged_cons, runCalls_logged_cons]
    have appended : log.map change ++ [change call] = (log ++ [call]).map change := by
      rw [List.map_append, List.map_singleton]
    rcases handler (change call) state with ⟨failure | value, state⟩
    · exact appended
    · simp only [appended, ih]

section

variable {change : Command σ N → Command σ N}
  (same : ∀ command, (change command).grammar = command.grammar)

include same

/-- A batch with changed commands is the batch of the handlers of the changed calls. -/
theorem executeEach_change {m : Type → Type} [Monad m] (handler : Resolution σ N → m Answer)
    (input : String) (commands : List (Command σ N)) :
    executeEach handler input (commands.map change) =
      executeEach (fun call => handler (call.mapCommand change)) input commands := by
  rw [executeEach, executeEach, resolveInput_change same]
  cases resolveInput input commands with
  | error failure => rfl
  | ok calls => exact runCalls_map handler _ calls

/-- Handlers of changed commands are run on the changed calls. -/
theorem invoked_change (handler : Resolution σ N → StateM σ Answer) (input : String)
    (commands : List (Command σ N)) (state : σ) :
    invoked handler input (commands.map change) state =
      (invoked (fun call => handler (call.mapCommand change)) input commands state).map
        (Resolution.mapCommand change) := by
  have resolves := resolveInput_change same input commands
  rw [invoked, invoked]
  cases found : resolveInput input commands with
  | error failure =>
    rw [found] at resolves
    rw [executeEach_of_error found, executeEach_of_error resolves]
    rfl
  | ok calls =>
    rw [found] at resolves
    rw [executeEach_of_ok found, executeEach_of_ok resolves]
    exact runCalls_logged_map handler _ calls [] state

end

/-! ## Handlers that are awaited -/

theorem run_runCalls {τ : Type} (handler : Resolution σ N → Resumable τ Answer)
    (calls : List (Resolution σ N)) :
    (runCalls handler calls).run = runCalls (fun call => (handler call).run) calls := by
  induction calls with
  | nil => rfl
  | cons call calls ih =>
    rw [runCalls, runCalls, run_bind]
    refine bind_congr fun answer => ?_
    cases answer with
    | error failure => rfl
    | ok value =>
      rw [run_bind, ih]
      rfl

/-- A batch that is awaited is the batch of the awaited handlers. -/
theorem run_executeEach (handler : Resolution σ N → Resumable σ Answer) (input : String)
    (commands : List (Command σ N)) :
    (executeEach handler input commands).run =
      executeEach (fun call => (handler call).run) input commands := by
  rw [executeEach, executeEach]
  cases resolveInput input commands with
  | error failure => rfl
  | ok calls => exact run_runCalls handler calls

namespace Command

/-- The handler of a command in effect where handlers may be suspended, awaited. -/
def effective (command : Command σ N) : Handler σ N := fun call =>
  match command.asyncHandler, command.handler with
  | some handler, _ => (handler call).run
  | none, some handler => handler call
  | none, none => pure (.ok none)

/-- The same command, with the handler in effect for one that answers at once. -/
def settled (command : Command σ N) : Command σ N :=
  { command with handler := some command.effective }

theorem run_answerAsync (command : Command σ N) (call : Call N) :
    (command.answerAsync call).run = command.effective call := by
  rw [answerAsync, effective, answer]
  cases command.asyncHandler with
  | some handler => rfl
  | none => cases command.handler <;> rfl

end Command

/-! ## Starts and completions -/

/-- What is to be seen of handlers. -/
inductive Event (σ N : Type) where
  | started (call : Resolution σ N)
  | completed (call : Resolution σ N)

/-- Appends an event to the log. -/
def note (event : Event σ N) : Resumable (σ × List (Event σ N)) Unit :=
  .act (fun point => (point.1, point.2 ++ [event])) fun _ => .done ()

/-- The same handler, which also writes down its start and its completion. -/
def traced (handler : Resolution σ N → Resumable σ Answer) (call : Resolution σ N) :
    Resumable (σ × List (Event σ N)) Answer := do
  note (.started call)
  let answer ← (handler call).beside
  note (.completed call)
  pure answer

/-- The events of handlers that have all been run, one after another. -/
def fullRuns (calls : List (Resolution σ N)) : List (Event σ N) :=
  calls.flatMap fun call => [.started call, .completed call]

/-- The events of handlers that are run in turn on some of the first calls: each is completed before the
next is started. -/
inductive InTurn : List (Resolution σ N) → List (Event σ N) → Prop
  | idle (calls : List (Resolution σ N)) : InTurn calls []
  | running (call : Resolution σ N) (calls : List (Resolution σ N)) :
    InTurn (call :: calls) [.started call]
  | behind (call : Resolution σ N) {calls : List (Resolution σ N)} {events : List (Event σ N)} :
    InTurn calls events → InTurn (call :: calls) (.started call :: .completed call :: events)

section

variable (handler : Resolution σ N → Resumable σ Answer)

theorem run_traced (call : Resolution σ N) (state : σ) (log : List (Event σ N)) :
    (traced handler call).run (state, log) =
      (((handler call).run state).1, ((handler call).run state).2,
        log ++ [.started call, .completed call]) := by
  calc (traced handler call).run (state, log)
    _ = ((handler call).beside >>= fun answer => do
          note (.completed call)
          pure answer).run (state, log ++ [.started call]) := rfl
    _ = (((handler call).beside.run (state, log ++ [.started call])).1,
          ((handler call).beside.run (state, log ++ [.started call])).2.1,
          ((handler call).beside.run (state, log ++ [.started call])).2.2 ++ [.completed call]) := by
      rw [run_bind]
      rfl
    _ = _ := by
      rw [run_beside, List.append_assoc]
      rfl

theorem runCalls_traced_cons (call : Resolution σ N) (calls : List (Resolution σ N)) (state : σ)
    (log : List (Event σ N)) :
    (runCalls (traced handler) (call :: calls)).run (state, log) =
      match (handler call).run state with
      | (.error failure, state) =>
        ([.failure failure.message], state, log ++ [.started call, .completed call])
      | (.ok value, state) =>
        let later := (runCalls (traced handler) calls).run
          (state, log ++ [.started call, .completed call])
        (.value value :: later.1, later.2) := by
  rw [run_runCalls, run_runCalls, runCalls]
  change (traced handler call).run.bind _ (state, log) = _
  simp only [StateT.bind, Bind.bind, run_traced]
  rcases (handler call).run state with ⟨failure | value, state⟩ <;> rfl

theorem fullRuns_append_singleton (calls : List (Resolution σ N)) (call : Resolution σ N) :
    fullRuns calls ++ [.started call, .completed call] = fullRuns (calls ++ [call]) := by
  rw [fullRuns, fullRuns, List.flatMap_append, List.flatMap_singleton]

/-- Awaited handlers are run on the calls on which the handlers would be run that answer at once, and each is
completed before the next is started. -/
theorem run_runCalls_traced (calls log : List (Resolution σ N)) (state : σ) :
    (runCalls (traced handler) calls).run (state, fullRuns log) =
      ((runCalls (logged fun call => (handler call).run) calls (state, log)).1,
        (runCalls (logged fun call => (handler call).run) calls (state, log)).2.1,
        fullRuns (runCalls (logged fun call => (handler call).run) calls (state, log)).2.2) := by
  induction calls generalizing log state with
  | nil => rfl
  | cons call calls ih =>
    rw [runCalls_traced_cons, runCalls_logged_cons, fullRuns_append_singleton]
    rcases (handler call).run state with ⟨failure | value, state⟩
    · rfl
    · simp only [ih]

variable {handler} {others : σ → σ → Prop}

/-- A handler writes down its start at first and its completion at last. -/
theorem reach_traced {call : Resolution σ N} {state : σ} {log : List (Event σ N)}
    {point : Point (σ × List (Event σ N)) Answer}
    (h : Reach (Sheltered others) (traced handler call, (state, log)) point) :
    (∀ answer, point.1 ≠ .done answer) ∧
        (point.2.2 = log ∨ point.2.2 = log ++ [.started call]) ∨
      ∃ answer state', point = (.done answer, (state', log ++ [.started call, .completed call])) := by
  have steps : traced handler call = .act (fun point => (point.1, point.2 ++ [.started call]))
      fun _ => (handler call).beside.bind fun answer =>
        .act (fun point => (point.1, point.2 ++ [.completed call])) fun _ => .done answer := rfl
  rw [steps] at h
  rcases h.cases_act with rfl | started
  · exact .inl ⟨fun answer done => (by cases done), .inl rfl⟩
  rcases started.split with ⟨inside, reached, equal⟩ | ⟨answer, behind, reached, completing⟩
  · obtain ⟨computation, state', -, same⟩ := reach_beside reached
    obtain ⟨rfl, aside⟩ := Prod.mk.inj same
    refine .inl ⟨fun answer done => ?_, .inr (by rw [aside])⟩
    -- what stands behind the handler is not done
    rw [equal] at done
    cases computation <;> cases done
  · obtain ⟨computation, state', -, same⟩ := reach_beside reached
    obtain ⟨-, rfl⟩ := Prod.mk.inj same
    rcases completing.cases_act with rfl | completed
    · exact .inl ⟨fun answer done => (by cases done), .inr rfl⟩
    · refine .inr ⟨answer, state', ?_⟩
      rw [completed.eq_of_done, List.append_assoc]
      rfl

/-- At every point that is reached while calls are run, the handlers have been run in turn. -/
theorem inTurn_of_reach {calls : List (Resolution σ N)} {state : σ} {log : List (Event σ N)}
    {point : Point (σ × List (Event σ N)) (List Output)}
    (h : Reach (Sheltered others) (runCalls (traced handler) calls, (state, log)) point) :
    ∃ events, point.2.2 = log ++ events ∧ InTurn calls events := by
  induction calls generalizing state log point with
  | nil =>
    rw [h.eq_of_done]
    exact ⟨[], (List.append_nil log).symm, .idle []⟩
  | cons call calls ih =>
    rcases h.split with ⟨first, reached, -⟩ | ⟨answer, behind, reached, later⟩
    · rcases reach_traced reached with ⟨-, same | started⟩ | ⟨answer, state', same⟩
      · exact ⟨[], by rw [same, List.append_nil], .idle _⟩
      · exact ⟨_, started, .running call calls⟩
      · exact ⟨_, by rw [(Prod.mk.inj same).2], .behind call (.idle calls)⟩
    · rcases reach_traced reached with ⟨going, -⟩ | ⟨_, state', same⟩
      · exact absurd rfl (going answer)
      obtain ⟨-, rfl⟩ := Prod.mk.inj same
      cases answer with
      | error failure =>
        rw [later.eq_of_done]
        exact ⟨_, rfl, .behind call (.idle calls)⟩
      | ok value =>
        have goesOn : ∀ {state' : σ} {rest : Resumable _ (List Output)} {final},
            Reach (Sheltered others) (runCalls (traced handler) calls,
              (state', log ++ [.started call, .completed call])) (rest, final) →
            ∃ events, final.2 = log ++ events ∧ InTurn (call :: calls) events := by
          intro state' rest final reached
          obtain ⟨events, equal, inTurn⟩ := ih reached
          exact ⟨_, by rw [equal, List.append_assoc]; rfl, .behind call inTurn⟩
        rcases later.split with ⟨rest, reached, -⟩ | ⟨outputs, final, reached, finished⟩
        · exact goesOn reached
        · rw [finished.eq_of_done]
          exact goesOn reached

/-- Where the answer to a call is always the same, so are the outputs. -/
theorem outputs_of_reach {answer : Resolution σ N → Answer}
    (answers : ∀ call state value state',
      Reach others (handler call, state) (.done value, state') → value = answer call)
    {calls : List (Resolution σ N)} {state state' : σ} {outputs : List Output}
    (h : Reach others (runCalls handler calls, state) (.done outputs, state')) (start : σ) :
    outputs = (runCalls (fun call => (pure (answer call) : StateM σ Answer)) calls start).1 := by
  induction calls generalizing state outputs with
  | nil =>
    cases h.eq_of_done
    rfl
  | cons call calls ih =>
    obtain ⟨value, behind, reached, later⟩ := h.split_done
    rw [runCalls_cons, ← answers call state value behind reached]
    cases value with
    | error failure =>
      cases later.eq_of_done
      rfl
    | ok value =>
      obtain ⟨others, final, reached, finished⟩ := later.split_done
      cases finished.eq_of_done
      exact congrArg (Output.value value :: ·) (ih reached)

end

/-! ## Batches -/

/-- What a batch does that awaits a handler of resolved calls. -/
structure Awaited (handler : Resolution σ N → Resumable σ Answer) (input : String)
    (commands : List (Command σ N)) (batch : Resumable σ (List Output)) : Prop where
  /-- The batch is the one of the handler that answers as awaiting the handler does. -/
  settles : batch.run = executeEach (fun call => (handler call).run) input commands
  /-- If starts and completions are written down, the batch does the same. The handler is run on the calls
  on which the one is run that answers at once, in the same order. -/
  observed : ∀ state, (executeEach (traced handler) input commands).run (state, []) =
    ((batch.run state).1, (batch.run state).2,
      fullRuns (invoked (fun call => (handler call).run) input commands state))
  /-- Wherever a batch stands, and whatever others did with the state while a handler was suspended, each
  handler that was started in front of another has been completed before. -/
  inTurn : ∀ (others : σ → σ → Prop) (state : σ) (point : Point (σ × List (Event σ N)) (List Output)),
    Reach (Sheltered others) (executeEach (traced handler) input commands, (state, [])) point →
    InTurn ((resolveInput input commands).toOption.getD []) point.2.2
  /-- If the answer to a call is always the same, also in spite of others, then so are the outputs. -/
  unhindered : ∀ (others : σ → σ → Prop) (answer : Resolution σ N → Answer),
    (∀ call state value state',
      Reach others (handler call, state) (.done value, state') → value = answer call) →
    ∀ state outputs state', Reach others (batch, state) (.done outputs, state') →
      outputs = (executeEach (fun call => (pure (answer call) : StateM σ Answer)) input commands
        state).1

theorem awaited_executeEach (handler : Resolution σ N → Resumable σ Answer) (input : String)
    (commands : List (Command σ N)) :
    Awaited handler input commands (executeEach handler input commands) := by
  refine ⟨run_executeEach handler input commands, ?_, ?_, ?_⟩
  · intro state
    rw [run_executeEach handler, invoked]
    cases resolves : resolveInput input commands with
    | error failure =>
      rw [executeEach_of_error resolves, executeEach_of_error resolves, executeEach_of_error resolves]
      rfl
    | ok calls =>
      rw [executeEach_of_ok resolves, executeEach_of_ok resolves, executeEach_of_ok resolves,
        runCalls_eq_logged _ calls []]
      exact run_runCalls_traced handler calls [] state
  · intro others state point reached
    cases resolves : resolveInput input commands with
    | error failure =>
      rw [executeEach_of_error resolves] at reached
      rw [reached.eq_of_done]
      exact .idle _
    | ok calls =>
      rw [executeEach_of_ok resolves] at reached
      obtain ⟨events, equal, inTurn⟩ := inTurn_of_reach reached
      rw [equal]
      exact inTurn
  · intro others answer answers state outputs state' reached
    cases resolves : resolveInput input commands with
    | error failure =>
      rw [executeEach_of_error resolves] at reached
      rw [executeEach_of_error resolves]
      cases reached.eq_of_done
      rfl
    | ok calls =>
      rw [executeEach_of_ok resolves] at reached
      rw [executeEach_of_ok resolves]
      exact outputs_of_reach answers reached state

/-- **Awaiting.** Where handlers may be suspended, a batch awaits the handlers in effect one after another.
It is the batch of the same commands with these for handlers that answer at once, and so it is with one
handler for all calls in place of another one that does the same. -/
theorem executesAsync_awaited (input : String) (commands : List (Command σ N)) :
    (Awaited (fun call => call.command.answerAsync call.call) input commands
        (executeAsync input commands) ∧
      (executeAsync input commands).run = execute input (commands.map Command.settled) ∧
      ∀ state, invoked (fun call => call.command.answer call.call) input
          (commands.map Command.settled) state =
        (invoked (fun call => (call.command.answerAsync call.call).run) input commands state).map
          (Resolution.mapCommand Command.settled)) ∧
    ∀ (handler : Handler σ N) (asyncHandler : AsyncHandler σ N),
      (∀ call, (asyncHandler call).run = handler call) →
      Awaited (fun call => asyncHandler call.call) input commands
          (executeAsyncWith asyncHandler input commands) ∧
        (executeAsyncWith asyncHandler input commands).run = executeWith handler input commands ∧
        ∀ state, invoked (fun call => handler call.call) input commands state =
          invoked (fun call => (asyncHandler call.call).run) input commands state := by
  have grammar : ∀ command : Command σ N, command.settled.grammar = command.grammar := fun _ => rfl
  have answers : ∀ call : Resolution σ N,
      (call.mapCommand Command.settled).command.answer (call.mapCommand Command.settled).call =
        (call.command.answerAsync call.call).run :=
    fun call => (call.command.run_answerAsync call.call).symm
  refine ⟨⟨awaited_executeEach _ input commands, ?_, fun state => ?_⟩, fun handler asyncHandler same =>
    ⟨awaited_executeEach _ input commands, ?_, fun state => ?_⟩⟩
  · rw [executeAsync, run_executeEach, execute, executeEach_change grammar]
    simp only [answers]
  · rw [invoked_change grammar]
    simp only [answers]
  · rw [executeAsyncWith, run_executeEach, executeWith]
    simp only [same]
  · simp only [same]

/-- A handler that is suspended twice counts the calls as one does that is not suspended. -/
theorem executesAsync_awaited_ping :
    let ping : Command Nat String := ⟨"ping", [.literal ["ping"] false], none, none⟩
    let handler : Handler Nat String := fun _ count => (.ok none, count + 1)
    let asyncHandler : AsyncHandler Nat String := fun _ =>
      .suspend (.act (· + 1) fun _ => .suspend (.done (.ok none)))
    (∀ call, (asyncHandler call).run = handler call) ∧
      (executeAsyncWith asyncHandler "ping; ping" [ping]).run 0 =
        ([.value none, .value none], 2) := by
  intro ping handler asyncHandler
  have same : ∀ call, (asyncHandler call).run = handler call := fun _ => rfl
  have read : Input.tokenize "ping; ping" = .ok [["ping"], ["ping"]] := by cbv
  have awaited := (executesAsync_awaited "ping; ping" [ping]).2 handler asyncHandler same
  refine ⟨same, ?_⟩
  rw [awaited.2.1, executeWith, executeEach, resolveInput, read]
  rfl

end Phrasebook
