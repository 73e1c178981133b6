import Phrasebook.CommandLine.Run
import Phrasebook.Proofs.CommandFile
import Phrasebook.Proofs.Value.JsonText

/-!
# How resolving on the command line ends

A request to resolve an input ends with code two exactly if the command file cannot be used, whatever
else is asked for, with code zero if the input resolves, and else with code one (`Classified`). The flag
for JSON does not change the code. With it, a file that can be used makes the output one JSON object,
which says whether the code is zero. It then has the calls, each with its command and its arguments
(`ShowsCall`), and else the message of the error stream.

This is so whatever parsers the program works with (`classified_runWith`), in particular with its own
(`classified_run`). What the arguments and the command file say is what the parsers make of them.
-/

namespace Phrasebook.CommandLine

open Phrasebook.Value

variable {parsers : CommandFile.Parsers} {readFile : String → Except String String}
  {arguments : List String} {path input : String} {json all : Bool}
  {contents : Except String String}

/-- What an input resolves to: every call of it or, if `all` are asked for, the commands that take its
only call, of which there must be one. -/
inductive Resolves (input : String) (commands : List (Command Unit String)) :
    Bool → List (Resolution Unit String) → Prop
  | each {resolutions : List (Resolution Unit String)} :
    resolveInput input commands = .ok resolutions → Resolves input commands false resolutions
  | all {resolutions : List (Resolution Unit String)} :
    findInputMatches input commands = .ok resolutions → resolutions ≠ [] →
    Resolves input commands true resolutions

/-- The calls that are found are those of what the input resolves to. -/
theorem resolvedCalls_eq_ok_iff {commands : List (Command Unit String)} {calls : List (Call String)} :
    resolvedCalls input all commands = .ok calls ↔
      ∃ resolutions, Resolves input commands all resolutions ∧ resolutions.map (·.call) = calls := by
  constructor
  · intro h
    unfold resolvedCalls at h
    split at h
    · next isAll =>
      subst isAll
      split at h
      · cases h
      · cases h
      · next resolutions notEmpty found =>
        exact ⟨resolutions, .all found notEmpty, Except.ok.inj h⟩
    · next notAll =>
      rw [Bool.not_eq_true] at notAll
      subst notAll
      split at h
      · cases h
      · next resolutions found => exact ⟨resolutions, .each found, Except.ok.inj h⟩
  · rintro ⟨resolutions, resolves, rfl⟩
    cases resolves with
    | each found => simp [resolvedCalls, found]
    | all found notEmpty => simp [resolvedCalls, found]

theorem Resolves.unique {commands : List (Command Unit String)}
    {first second : List (Resolution Unit String)} (h : Resolves input commands all first)
    (h' : Resolves input commands all second) : first = second := by
  cases h <;> cases h' <;> simp_all

/-! ## What is shown -/

/-- How an argument is shown: as the value that its token spells, or as the token itself if it spells
none. -/
inductive ShowsArgument (token : String) : Value → Prop
  | value {value : Value} : Value.read token = .ok value → ShowsArgument token value
  | token {error : SyntaxError} :
    Value.read token = .error error → ShowsArgument token (.string token)

/-- How a call is shown: as an object with the name of its command and with its arguments, each under
the name that it is bound to. -/
inductive ShowsCall (resolution : Resolution Unit String) : Value → Prop
  | object {shown : List (String × Value)} :
    List.Forall₂ (fun bound shown => shown.1 = bound.1 ∧ ShowsArgument bound.2 shown.2)
      resolution.found.arguments.entries shown →
    ShowsCall resolution
      (.object [("command", .string resolution.command.name), ("arguments", .object shown)])

/-- The output for an input that resolves, with its calls as they are shown. -/
def resolvedValue (calls : List Value) : Value :=
  .object [("resolved", .bool true), ("calls", .array calls)]

/-- The output for an input that does not resolve. -/
def unresolvedValue (message : String) : Value :=
  .object [("resolved", .bool false), ("error", .string message)]

theorem ShowsArgument.unique : Relator.RightUnique ShowsArgument := by
  rintro token first second h h'
  cases h with
  | value read =>
    cases h' with
    | value read' => exact Except.ok.inj (read.symm.trans read')
    | token failed => cases read.symm.trans failed
  | token failed =>
    cases h' with
    | value read => cases read.symm.trans failed
    | token _ => rfl

/-- A call is shown in one way. -/
theorem ShowsCall.unique : Relator.RightUnique ShowsCall := by
  rintro resolution _ _ ⟨shows⟩ ⟨shows'⟩
  have same := List.right_unique_forall₂' ?_ shows shows'
  · rw [same]
  · rintro bound first second ⟨name, argument⟩ ⟨name', argument'⟩
    exact Prod.ext (name.trans name'.symm) (ShowsArgument.unique argument argument')

theorem showsArgument_of_rawArgument? {call : Call String} {name token : String}
    (bound : call.rawArgument? name = some token) :
    ShowsArgument token ((call.tryArgument? name).getD (.string token)) := by
  rw [Call.tryArgument?, Call.argument_of_rawArgument? bound, decode]
  cases read : Value.read token with
  | ok value => exact .value read
  | error error => exact .token read

theorem showsCall_callValue (resolution : Resolution Unit String) :
    ShowsCall resolution (callValue resolution.call) := by
  refine .object ?_
  rw [decodedArguments, List.forall₂_map_right_iff]
  refine List.forall₂_same.2 fun bound member => ⟨rfl, ?_⟩
  exact showsArgument_of_rawArgument? (Bindings.get?_of_mem member)

/-! ## Outcomes -/

/-- The three ways in which a request to resolve an input ends, with the text of the command file or why
it cannot be read. -/
inductive Ends (parsers : CommandFile.Parsers) (path input : String) (json all : Bool)
    (contents : Except String String) : Outcome → Prop
  | fatal {message : String} :
    CommandFile.Unusable parsers path contents →
    Ends parsers path input json all contents (.fatal message)
  | invalid {commands : List (Command Unit String)} {message stdout : String} :
    CommandFile.Holds parsers path contents commands →
    (∀ resolutions, ¬ Resolves input commands all resolutions) →
    (json = true → HoldsJson stdout (unresolvedValue message)) →
    Ends parsers path input json all contents (.invalid message stdout)
  | success {commands : List (Command Unit String)} {resolutions : List (Resolution Unit String)}
    {stdout : String} :
    CommandFile.Holds parsers path contents commands → Resolves input commands all resolutions →
    (json = true → ∃ calls, List.Forall₂ ShowsCall resolutions calls ∧
      HoldsJson stdout (resolvedValue calls)) →
    Ends parsers path input json all contents (.success stdout)

theorem ends_runResolve {commands : List (Command Unit String)}
    (holds : CommandFile.Holds parsers path contents commands) :
    Ends parsers path input json all contents (runResolve input json all commands) := by
  unfold runResolve
  split
  · next message failed =>
    refine .invalid holds (fun resolutions resolves => ?_) fun isJson => ?_
    · have found := resolvedCalls_eq_ok_iff.2 ⟨resolutions, resolves, rfl⟩
      rw [failed] at found
      cases found
    · rw [if_pos isJson]
      exact holdsJson_pretty _
  · next calls found =>
    obtain ⟨resolutions, resolves, rfl⟩ := resolvedCalls_eq_ok_iff.1 found
    refine .success holds resolves fun isJson => ⟨resolutions.map (callValue ·.call), ?_, ?_⟩
    · rw [List.forall₂_map_right_iff]
      exact List.forall₂_same.2 fun resolution _ => showsCall_callValue resolution
    · rw [if_pos isJson, List.map_map]
      exact holdsJson_pretty _

theorem ends_answer : Ends parsers path input json all (readFile path)
    (answer parsers readFile (.resolve path input json all)) := by
  rw [answer]
  split
  · next fault failed => exact .fatal (CommandFile.exists_load_eq_error_iff.1 ⟨fault, failed⟩)
  · next commands loaded => exact ends_runResolve (CommandFile.load_eq_ok_iff.1 loaded)

/-! ## Classification -/

/-- How a request to resolve an input ends: when with each exit code, and what is then on the output. -/
structure Classified (parsers : CommandFile.Parsers) (path input : String) (json all : Bool)
    (contents : Except String String) (outcome : Outcome) : Prop where
  fatal : outcome.exitCode = 2 ↔ CommandFile.Unusable parsers path contents
  success : outcome.exitCode = 0 ↔
    ∃ commands resolutions, CommandFile.Holds parsers path contents commands ∧
      Resolves input commands all resolutions
  invalid : outcome.exitCode = 1 ↔
    ∃ commands, CommandFile.Holds parsers path contents commands ∧
      ∀ resolutions, ¬ Resolves input commands all resolutions
  bounded : outcome.exitCode ≤ 2
  silent : outcome.exitCode = 2 → outcome.stdout = ""
  /-- A success shows the calls in the order of the resolutions. -/
  calls : json = true → ∀ commands resolutions,
    CommandFile.Holds parsers path contents commands →
    Resolves input commands all resolutions →
    ∃ calls, List.Forall₂ ShowsCall resolutions calls ∧
      HoldsJson outcome.stdout (resolvedValue calls)
  /-- What went wrong is on the output as it is on the error stream. -/
  message : json = true → outcome.exitCode = 1 →
    ∃ message, outcome.stderr = "error: " ++ message ++ "\n" ∧
      HoldsJson outcome.stdout (unresolvedValue message)

theorem Ends.classified {outcome : Outcome}
    (h : Ends parsers path input json all contents outcome) :
    Classified parsers path input json all contents outcome := by
  cases h with
  | fatal unusable =>
    have noCommands : ∀ commands : List (Command Unit String),
        ¬ CommandFile.Holds parsers path contents commands :=
      fun _ holds => holds.not_unusable unusable
    exact {
      fatal := iff_of_true rfl unusable
      success := iff_of_false nofun fun ⟨commands, _, holds, _⟩ => noCommands commands holds
      invalid := iff_of_false nofun fun ⟨commands, holds, _⟩ => noCommands commands holds
      bounded := Nat.le_refl 2
      silent := fun _ => rfl
      calls := fun _ commands _ holds => absurd holds (noCommands commands)
      message := nofun }
  | @invalid commands message stdout holds unresolved written =>
    have noResolutions : ∀ commands' resolutions,
        CommandFile.Holds parsers path contents commands' →
        ¬ Resolves input commands' all resolutions :=
      fun _ resolutions holds' => holds.unique holds' ▸ unresolved resolutions
    exact {
      fatal := iff_of_false nofun holds.not_unusable
      success := iff_of_false nofun fun ⟨commands, resolutions, holds, resolves⟩ =>
        noResolutions commands resolutions holds resolves
      invalid := iff_of_true rfl ⟨commands, holds, unresolved⟩
      bounded := Nat.le_succ 1
      silent := nofun
      calls := fun _ commands resolutions holds resolves =>
        absurd resolves (noResolutions commands resolutions holds)
      message := fun isJson _ => ⟨message, rfl, written isJson⟩ }
  | @success commands resolutions stdout holds resolves written =>
    exact {
      fatal := iff_of_false nofun holds.not_unusable
      success := iff_of_true rfl ⟨commands, resolutions, holds, resolves⟩
      invalid := iff_of_false nofun fun ⟨_, holds', unresolved⟩ =>
        unresolved resolutions (holds.unique holds' ▸ resolves)
      bounded := Nat.zero_le 2
      silent := nofun
      calls := fun isJson commands' resolutions' holds' resolves' => by
        cases holds.unique holds'
        cases resolves.unique resolves'
        exact written isJson
      message := nofun }

theorem runWith_eq_answer {parsers : Parsers} {request : Request}
    (h : parsers.arguments arguments = .ok request) :
    runWith parsers readFile arguments = answer parsers.toParsers readFile request := by
  rw [runWith, h]

theorem classified_of_asked (parsers : Parsers)
    (asked : parsers.arguments arguments = .ok (.resolve path input json all)) :
    Classified parsers.toParsers path input json all (readFile path)
      (runWith parsers readFile arguments) := by
  rw [runWith_eq_answer asked]
  exact ends_answer.classified

/-- The program with its own parsers. -/
theorem classified_run (asked : parse arguments = .ok (.resolve path input json all)) :
    Classified .standard path input json all (readFile path) (run readFile arguments) :=
  classified_of_asked .standard asked

end Phrasebook.CommandLine
