import Phrasebook.Command.Encoding
import Phrasebook.Proofs.Grammar.Encoding

/-!
# Commands read back

A command that is encoded and read has the same name and the same grammar, and no handlers, so it fits
the same tokens: `encoded_read_back`. Names may be of any type whose values are read as they were written.
-/

namespace Phrasebook

variable {σ N : Type} [ToValue N] [FromValue N]

/-- A command comes back without its handlers. -/
theorem Command.ofValue_toValue (names : ∀ name : N, fromValue (ToValue.toValue name) = .ok name)
    (command : Command σ N) :
    Command.ofValue command.toValue =
      .ok ({ name := command.name, grammar := command.grammar } : Command σ N) := by
  have readGrammar := Grammar.ofValue_toValue command.grammar
  have readValue : fromValue (Grammar.toValue command.grammar) =
      .ok (Grammar.toValue command.grammar) := rfl
  simp [Command.toValue, Command.ofValue, Command.checkFields, field, required, Members.find?, names,
    readGrammar, readValue, bind, Except.bind, pure, Except.pure, Except.map]

/-- **What is encoded is read back.** A part or a grammar comes back as it was, also when nothing says that
its literals are not case sensitive. A command comes back with its name and its grammar and without
handlers, and fits a token list as it did before. -/
theorem encoded_read_back :
    (∀ part : Part, fromValue part.toValue = .ok part ∧
      fromValue (part.toValue.without isDefaultCase) = .ok part) ∧
    (∀ grammar : Grammar, Grammar.ofValue (Grammar.toValue grammar) = .ok grammar ∧
      Grammar.ofValue ((Grammar.toValue grammar).without isDefaultCase) = .ok grammar) ∧
    ∀ {σ N : Type} [ToValue N] [FromValue N],
      (∀ name : N, fromValue (ToValue.toValue name) = .ok name) → ∀ command : Command σ N,
        ∃ read : Command σ N, Command.ofValue command.toValue = .ok read ∧
          read.name = command.name ∧ read.grammar = command.grammar ∧
          read.handler = none ∧ read.asyncHandler = none ∧
          ∀ tokens, read.match? tokens = command.match? tokens := by
  refine ⟨fun part => ⟨part.ofValue_toValue false, ?_⟩, fun grammar => ⟨?_, ?_⟩,
    fun names command => ?_⟩
  · exact part.ofValue_without dropsDefaults_isDefaultCase false
  · exact Grammar.ofValue_toValue grammar
  · exact Grammar.ofValue_without dropsDefaults_isDefaultCase grammar
  · exact ⟨_, Command.ofValue_toValue names command, rfl, rfl, rfl, rfl, fun _ => rfl⟩

/-- A command with a handler, whose grammar has an empty alternative and a literal that is case
sensitive. -/
theorem encoded_read_back_ping :
    let ping : Command Unit String := {
      name := "ping"
      grammar := [.choices [[], [.literal ["Ping"] true]], .literal ["it"] false,
        .optional [.argument ""]]
      handler := some fun _ => pure (.ok none) }
    (∀ name : String, fromValue (ToValue.toValue name) = .ok name) ∧
      ∃ read : Command Unit String, Command.ofValue ping.toValue = .ok read ∧
        read.name = "ping" ∧ read.handler = none ∧
        (read.match? ["it", "x"]).map (·.tokenCount) = some 2 ∧ read.match? ["Ping", "it"] = none := by
  intro ping
  have names : ∀ name : String, fromValue (ToValue.toValue name) = .ok name := fun _ => rfl
  obtain ⟨read, decoded, name, -, handler, -, fits⟩ := encoded_read_back.2.2 names ping
  refine ⟨names, read, decoded, name, handler, ?_, ?_⟩
  · rw [fits]
    decide
  · rw [fits]
    decide

end Phrasebook
