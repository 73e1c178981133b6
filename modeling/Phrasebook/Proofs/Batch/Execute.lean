import Phrasebook.Batch.Execute

/-!
# What a batch runs and gives back

The calls of an input are run in order up to the first that fails, and none is run before all of them are
resolved. To speak of the runs and not only of their outputs, a handler is made to write down every call
on which it is run (`logged`); `executeEach_eq_logged` says that this changes nothing else.

`Batched` states what a batch does for a handler of resolved calls. `executes_batched` says that it holds of
`executeWith` for every handler, and of `execute` for the handlers of the commands.
-/

namespace Phrasebook

open Phrasebook.Input

variable {σ N : Type}

/-! ## Handlers that write down what they are run on -/

/-- The same handler, which also appends the call to a log. -/
def logged (handler : Resolution σ N → StateM σ Answer) (call : Resolution σ N) :
    StateM (σ × List (Resolution σ N)) Answer := fun (state, log) =>
  let (answer, state) := handler call state
  (answer, state, log ++ [call])

/-- The calls on which a handler is run in a batch, in order. -/
def invoked (handler : Resolution σ N → StateM σ Answer) (input : String)
    (commands : List (Command σ N)) (state : σ) : List (Resolution σ N) :=
  (executeEach (logged handler) input commands (state, [])).2.2

section

variable (handler : Resolution σ N → StateM σ Answer)

/-- The state behind calls that are run one after another. -/
def stateBehind (state : σ) (calls : List (Resolution σ N)) : σ :=
  calls.foldl (fun state call => (handler call state).2) state

/-- The answer to one of several calls that are run one after another. -/
def answer? (state : σ) (calls : List (Resolution σ N)) (i : Nat) : Option Answer :=
  calls[i]?.map fun call => (handler call (stateBehind handler state (calls.take i))).1

theorem answer?_zero (state : σ) (call : Resolution σ N) (calls : List (Resolution σ N)) :
    answer? handler state (call :: calls) 0 = some (handler call state).1 :=
  rfl

theorem answer?_succ (state : σ) (call : Resolution σ N) (calls : List (Resolution σ N)) (i : Nat) :
    answer? handler state (call :: calls) (i + 1) = answer? handler (handler call state).2 calls i :=
  rfl

/-! ## Running calls -/

/-- The rule for running a call and those behind it. -/
theorem runCalls_cons (call : Resolution σ N) (calls : List (Resolution σ N)) (state : σ) :
    runCalls handler (call :: calls) state =
      match handler call state with
      | (.error failure, state) => ([.failure failure.message], state)
      | (.ok value, state) =>
        (.value value :: (runCalls handler calls state).1, (runCalls handler calls state).2) := by
  change (handler call >>= _) state = _
  simp only [bind, StateT.bind]
  rcases handler call state with ⟨failure | value, state⟩ <;> rfl

/-- The rule for running a call and those behind it with a log. -/
theorem runCalls_logged_cons (call : Resolution σ N) (calls log : List (Resolution σ N))
    (state : σ) :
    runCalls (logged handler) (call :: calls) (state, log) =
      match handler call state with
      | (.error failure, state) => ([.failure failure.message], state, log ++ [call])
      | (.ok value, state) =>
        (.value value :: (runCalls (logged handler) calls (state, log ++ [call])).1,
          (runCalls (logged handler) calls (state, log ++ [call])).2) := by
  change (logged handler call >>= _) (state, log) = _
  simp only [bind, StateT.bind, logged]
  rcases handler call state with ⟨failure | value, state⟩ <;> rfl

/-- The log changes nothing else. -/
theorem runCalls_eq_logged (calls log : List (Resolution σ N)) (state : σ) :
    runCalls handler calls state =
      ((runCalls (logged handler) calls (state, log)).1,
        (runCalls (logged handler) calls (state, log)).2.1) := by
  induction calls generalizing state log with
  | nil => rfl
  | cons call calls ih =>
    rw [runCalls_cons, runCalls_logged_cons]
    rcases handler call state with ⟨failure | value, state⟩
    · rfl
    · simp only [ih (log ++ [call]) state]

/-- Where the run of calls ends: behind `values`, the answers to the calls in front of the first that
fails, or to all calls if none does. -/
theorem exists_values_runCalls (calls log : List (Resolution σ N)) (state : σ) :
    ∃ values : List (Option Value), values.length ≤ calls.length ∧
      (∀ i (h : i < values.length), answer? handler state calls i = some (.ok values[i])) ∧
      ((values.length = calls.length ∧
          runCalls (logged handler) calls (state, log) =
            (values.map .value, stateBehind handler state calls, log ++ calls)) ∨
        ∃ failure, answer? handler state calls values.length = some (.error failure) ∧
          runCalls (logged handler) calls (state, log) =
            (values.map .value ++ [.failure failure.message],
              stateBehind handler state (calls.take (values.length + 1)),
              log ++ calls.take (values.length + 1))) := by
  induction calls generalizing state log with
  | nil =>
    refine ⟨[], Nat.le_refl 0, fun i h => absurd h (Nat.not_lt_zero i), .inl ⟨rfl, ?_⟩⟩
    rw [List.append_nil]
    rfl
  | cons call calls ih =>
    rcases ran : handler call state with ⟨failure | value, behind⟩
    · refine ⟨[], Nat.zero_le _, fun i h => absurd h (Nat.not_lt_zero i), .inr ⟨failure, ?_, ?_⟩⟩
      · rw [List.length_nil, answer?_zero, ran]
      · rw [runCalls_logged_cons, ran]
        simp [stateBehind, ran]
    · obtain ⟨values, bound, answers, ends⟩ := ih (log ++ [call]) behind
      have later : ∀ i, answer? handler state (call :: calls) (i + 1) =
          answer? handler behind calls i := fun i => by rw [answer?_succ, ran]
      have goesOn : ∀ calls, stateBehind handler state (call :: calls) =
          stateBehind handler behind calls := fun calls => by
        rw [stateBehind, List.foldl_cons, ran]
        rfl
      refine ⟨value :: values, Nat.succ_le_succ bound, fun i h => ?_, ?_⟩
      · cases i with
        | zero =>
          rw [answer?_zero, ran]
          rfl
        | succ i =>
          rw [later]
          exact answers i (Nat.lt_of_succ_lt_succ h)
      · rw [runCalls_logged_cons, ran]
        rcases ends with ⟨all, run⟩ | ⟨failure, fails, run⟩
        · refine .inl ⟨congrArg Nat.succ all, ?_⟩
          simp only [run, goesOn, List.map_cons, List.append_assoc, List.singleton_append]
        · refine .inr ⟨failure, by rw [List.length_cons, later, fails], ?_⟩
          simp only [run, goesOn, List.map_cons, List.cons_append, List.append_assoc,
            List.nil_append, List.length_cons, List.take_succ_cons]

/-! ## Batches -/

/-- Calls do not resolve when some call does not. -/
theorem exists_error_resolveCalls {commands : List (Command σ N)} {calls : List (List String)} :
    (∃ failure, resolveCalls commands calls = .error failure) ↔
      ∃ call ∈ calls, resolve call commands = none := by
  induction calls with
  | nil => simp [resolveCalls]
  | cons call calls ih =>
    rw [resolveCalls]
    cases first : resolve call commands with
    | none => exact ⟨fun _ => ⟨call, List.mem_cons_self, first⟩, fun _ => ⟨_, rfl⟩⟩
    | some resolution =>
      cases more : resolveCalls commands calls with
      | error failure =>
        obtain ⟨later, member, unknown⟩ := ih.1 ⟨failure, more⟩
        exact ⟨fun _ => ⟨later, List.mem_cons_of_mem call member, unknown⟩, fun _ => ⟨failure, rfl⟩⟩
      | ok resolutions =>
        refine ⟨fun ⟨failure, h⟩ => (by cases h), fun ⟨other, member, unknown⟩ => ?_⟩
        rcases List.mem_cons.1 member with rfl | later
        · rw [first] at unknown
          cases unknown
        · obtain ⟨failure, h⟩ := ih.2 ⟨other, later, unknown⟩
          rw [more] at h
          cases h

/-- An input does not resolve when it is malformed or holds a call that no command takes. -/
theorem exists_error_resolveInput {input : String} {commands : List (Command σ N)} :
    (∃ failure, resolveInput input commands = .error failure) ↔
      (∃ fault, tokenize input = .error fault) ∨
        ∃ calls, tokenize input = .ok calls ∧ ∃ call ∈ calls, resolve call commands = none := by
  rw [resolveInput]
  cases tokenize input with
  | error fault => simp
  | ok calls => simpa using exists_error_resolveCalls

/-- What a batch does for a handler of resolved calls. -/
structure Batched (input : String) (commands : List (Command σ N))
    (run : StateM σ (List Output)) : Prop where
  /-- The run is the one in which the handler writes down the calls on which it is run. -/
  observed : ∀ state, run state =
    ((executeEach (logged handler) input commands (state, [])).1,
      (executeEach (logged handler) input commands (state, [])).2.1)
  /-- If an input does not resolve, the failure is the output, and the handler is run on nothing. -/
  unresolved : ∀ state failure, resolveInput input commands = .error failure →
    run state = ([.failure failure.message], state) ∧ invoked handler input commands state = []
  /-- If it does, the handler is run on every call up to the first that fails and on nothing else, once
  and in order. The outputs are the values of those in front, and the message of that failure. -/
  resolved : ∀ state calls, resolveInput input commands = .ok calls →
    ∃ values : List (Option Value), values.length ≤ calls.length ∧
      (∀ i (h : i < values.length), answer? handler state calls i = some (.ok values[i])) ∧
      invoked handler input commands state = calls.take (values.length + 1) ∧
      ((values.length = calls.length ∧
          run state = (values.map .value, stateBehind handler state calls)) ∨
        ∃ failure, answer? handler state calls values.length = some (.error failure) ∧
          run state = (values.map .value ++ [.failure failure.message],
            stateBehind handler state (calls.take (values.length + 1))))
  /-- An output that tells of a failure is the last one. -/
  failure_last : ∀ state i (h : i < (run state).1.length),
    (run state).1[i].isFailure = true → i + 1 = (run state).1.length
  /-- No handler is run when a call of the input is malformed or unknown. -/
  untouched : ∀ state, ((∃ fault, tokenize input = .error fault) ∨
      ∃ calls, tokenize input = .ok calls ∧ ∃ call ∈ calls, resolve call commands = none) →
    (run state).2 = state ∧ invoked handler input commands state = []

theorem executeEach_of_error {m : Type → Type} [Monad m] {run : Resolution σ N → m Answer}
    {input : String} {commands : List (Command σ N)} {failure : Failure}
    (h : resolveInput input commands = .error failure) :
    executeEach run input commands = pure [.failure failure.message] := by
  rw [executeEach, h]

theorem executeEach_of_ok {m : Type → Type} [Monad m] {run : Resolution σ N → m Answer}
    {input : String} {commands : List (Command σ N)} {calls : List (Resolution σ N)}
    (h : resolveInput input commands = .ok calls) :
    executeEach run input commands = runCalls run calls := by
  rw [executeEach, h]

theorem executeEach_eq_logged (input : String) (commands : List (Command σ N)) (state : σ) :
    executeEach handler input commands state =
      ((executeEach (logged handler) input commands (state, [])).1,
        (executeEach (logged handler) input commands (state, [])).2.1) := by
  cases resolves : resolveInput input commands with
  | error failure =>
    rw [executeEach_of_error resolves, executeEach_of_error resolves]
    rfl
  | ok calls =>
    rw [executeEach_of_ok resolves, executeEach_of_ok resolves]
    exact runCalls_eq_logged handler calls [] state

/-- Of values with at most a failure behind them, only the last tells of a failure. -/
theorem isFailure_last {values : List (Option Value)} {more : List Output} (one : more.length ≤ 1)
    {i : Nat} (h : i < (values.map Output.value ++ more).length)
    (fails : (values.map Output.value ++ more)[i].isFailure = true) :
    i + 1 = (values.map Output.value ++ more).length := by
  by_cases inFront : i < (values.map Output.value).length
  · rw [List.getElem_append_left inFront, List.getElem_map] at fails
    cases fails
  · rw [List.length_append] at h ⊢
    omega

theorem batched_executeEach (input : String) (commands : List (Command σ N)) :
    Batched handler input commands (executeEach handler input commands) := by
  have unresolved : ∀ state failure, resolveInput input commands = .error failure →
      executeEach handler input commands state = ([.failure failure.message], state) ∧
        invoked handler input commands state = [] := by
    intro state failure resolves
    rw [invoked, executeEach_of_error resolves, executeEach_of_error resolves]
    exact ⟨rfl, rfl⟩
  have resolved : ∀ state calls, resolveInput input commands = .ok calls →
      ∃ values : List (Option Value), values.length ≤ calls.length ∧
        (∀ i (h : i < values.length), answer? handler state calls i = some (.ok values[i])) ∧
        invoked handler input commands state = calls.take (values.length + 1) ∧
        ((values.length = calls.length ∧ executeEach handler input commands state =
            (values.map .value, stateBehind handler state calls)) ∨
          ∃ failure, answer? handler state calls values.length = some (.error failure) ∧
            executeEach handler input commands state =
              (values.map .value ++ [.failure failure.message],
                stateBehind handler state (calls.take (values.length + 1)))) := by
    intro state calls resolves
    obtain ⟨values, bound, answers, ends⟩ := exists_values_runCalls handler calls [] state
    refine ⟨values, bound, answers, ?_⟩
    rw [invoked, executeEach_of_ok resolves, executeEach_of_ok resolves,
      runCalls_eq_logged handler calls []]
    rcases ends with ⟨all, run⟩ | ⟨failure, fails, run⟩
    · have whole : calls.take (values.length + 1) = calls := List.take_of_length_le (by omega)
      rw [run, whole]
      exact ⟨rfl, .inl ⟨all, rfl⟩⟩
    · rw [run]
      exact ⟨rfl, .inr ⟨failure, fails, rfl⟩⟩
  refine ⟨executeEach_eq_logged handler input commands, unresolved, resolved, ?_, ?_⟩
  · intro state i h fails
    cases resolves : resolveInput input commands with
    | error failure =>
      have run := (unresolved state failure resolves).1
      simp only [run, List.length_singleton] at h ⊢
      omega
    | ok calls =>
      obtain ⟨values, -, -, -, ⟨-, run⟩ | ⟨failure, -, run⟩⟩ := resolved state calls resolves
      · simp only [run] at h fails ⊢
        have last := @isFailure_last values [] (Nat.zero_le 1) i
        rw [List.append_nil] at last
        exact last h fails
      · simp only [run] at h fails ⊢
        exact @isFailure_last values [.failure failure.message] (Nat.le_refl 1) i h fails
  · intro state malformed
    obtain ⟨failure, resolves⟩ := exists_error_resolveInput.2 malformed
    obtain ⟨run, nothing⟩ := unresolved state failure resolves
    exact ⟨by rw [run], nothing⟩

end

/-- **Batches.** `executeWith` does for any handler what a batch does, and `execute` does it for the handlers
of the commands, where a command without one answers nothing. -/
theorem executes_batched (input : String) (commands : List (Command σ N)) :
    (∀ handler : Handler σ N, Batched (fun call => handler call.call) input commands
      (executeWith handler input commands)) ∧
    Batched
      (fun call => match call.command.handler with
        | some handler => handler call.call
        | none => pure (.ok none))
      input commands (execute input commands) :=
  ⟨fun _ => batched_executeEach _ input commands, batched_executeEach _ input commands⟩

end Phrasebook
