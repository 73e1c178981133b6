import Phrasebook.Proofs.Command.Candidates
import Phrasebook.Proofs.Grammar.Soundness

/-!
# Arguments that a handler may rely on

A grammar requires a name if it binds it whichever way it is taken: an argument requires its name, a choice
those that each of its alternatives requires, and a part that may be left out none (`Grammar.requires`).
Every token list that a grammar describes binds the required names, and binds no names but those of the
grammar, to tokens of the list. `resolveInput_reliable` says so of every call of an input, so that a handler
never misses a required argument.
-/

namespace Phrasebook

open Phrasebook.Input

/-! ## Required names -/

mutual

/-- Whether a part binds a name whichever way it is taken. -/
def Part.requires (name : String) : Part → Bool
  | .literal _ _ => false
  | .argument known => known = name
  | .optional _ => false
  | .choices alternatives => Grammar.allRequire name alternatives

/-- Whether a grammar binds a name whichever way it is taken. -/
def Grammar.requires (name : String) : List Part → Bool
  | [] => false
  | part :: parts => part.requires name || Grammar.requires name parts

/-- Whether every alternative binds a name whichever way it is taken. -/
def Grammar.allRequire (name : String) : List (List Part) → Bool
  | [] => true
  | alternative :: alternatives =>
    Grammar.requires name alternative && Grammar.allRequire name alternatives

end

mutual

theorem Part.exists_bound_of_requires (part : Part) {name : String} {tokens : List String}
    {bound : List (String × String)} (h : part.Derives tokens bound)
    (required : part.requires name = true) : ∃ token, (name, token) ∈ bound := by
  match part with
  | .literal expected caseSensitive => cases required
  | .argument known =>
    cases h with
    | argument _ token =>
      obtain rfl : known = name := of_decide_eq_true required
      exact ⟨token, List.mem_singleton_self _⟩
  | .optional body => cases required
  | .choices alternatives =>
    cases h with
    | choice member derives =>
      exact Grammar.exists_bound_of_allRequire alternatives member derives required

/-- A required name is bound by every token list that the grammar describes. -/
theorem Grammar.exists_bound_of_requires (grammar : List Part) {name : String} {tokens : List String}
    {bound : List (String × String)} (h : Grammar.Derives grammar tokens bound)
    (required : Grammar.requires name grammar = true) : ∃ token, (name, token) ∈ bound := by
  match grammar with
  | [] => cases required
  | part :: parts =>
    rw [Grammar.requires, Bool.or_eq_true] at required
    cases h with
    | cons derives others =>
      rcases required with here | later
      · obtain ⟨token, member⟩ := Part.exists_bound_of_requires part derives here
        exact ⟨token, List.mem_append_left _ member⟩
      · obtain ⟨token, member⟩ := Grammar.exists_bound_of_requires parts others later
        exact ⟨token, List.mem_append_right _ member⟩

theorem Grammar.exists_bound_of_allRequire (alternatives : List (List Part)) {alternative : Grammar}
    (member : alternative ∈ alternatives) {name : String} {tokens : List String}
    {bound : List (String × String)} (h : Grammar.Derives alternative tokens bound)
    (required : Grammar.allRequire name alternatives = true) : ∃ token, (name, token) ∈ bound := by
  match alternatives with
  | [] => cases member
  | first :: others =>
    rw [Grammar.allRequire, Bool.and_eq_true] at required
    rcases List.mem_cons.1 member with same | later
    · exact Grammar.exists_bound_of_requires first (same ▸ h) required.1
    · exact Grammar.exists_bound_of_allRequire others later h required.2

end

/-! ## Bound names and tokens -/

mutual

theorem Part.bound_subset (part : Part) {tokens : List String} {bound : List (String × String)}
    (h : part.Derives tokens bound) :
    ∀ entry ∈ bound, entry.1 ∈ part.argumentNames ∧ entry.2 ∈ tokens := by
  match part with
  | .literal expected caseSensitive =>
    cases h
    exact List.forall_mem_nil _
  | .argument name =>
    cases h with
    | argument _ token =>
      exact List.forall_mem_singleton.2 ⟨List.mem_singleton_self _, List.mem_singleton_self _⟩
  | .optional body =>
    cases h with
    | absent => exact List.forall_mem_nil _
    | present derives => exact Grammar.bound_subset body derives
  | .choices alternatives =>
    cases h with
    | choice member derives => exact Grammar.bound_subset_alternatives alternatives member derives

/-- What a token list binds are tokens of the list, under names of the grammar. -/
theorem Grammar.bound_subset (grammar : List Part) {tokens : List String}
    {bound : List (String × String)} (h : Grammar.Derives grammar tokens bound) :
    ∀ entry ∈ bound, entry.1 ∈ Grammar.argumentNames grammar ∧ entry.2 ∈ tokens := by
  match grammar with
  | [] =>
    cases h
    exact List.forall_mem_nil _
  | part :: parts =>
    cases h with
    | cons derives others =>
      intro entry member
      rw [Grammar.argumentNames, List.mem_append, List.mem_append]
      rcases List.mem_append.1 member with here | later
      · exact (Part.bound_subset part derives entry here).imp .inl .inl
      · exact (Grammar.bound_subset parts others entry later).imp .inr .inr

theorem Grammar.bound_subset_alternatives (alternatives : List (List Part)) {alternative : Grammar}
    (member : alternative ∈ alternatives) {tokens : List String} {bound : List (String × String)}
    (h : Grammar.Derives alternative tokens bound) :
    ∀ entry ∈ bound, entry.1 ∈ Grammar.alternativeNames alternatives ∧ entry.2 ∈ tokens := by
  match alternatives with
  | [] => cases member
  | first :: others =>
    intro entry isBound
    rw [Grammar.alternativeNames, List.mem_append]
    rcases List.mem_cons.1 member with same | later
    · exact (Grammar.bound_subset first (same ▸ h) entry isBound).imp_left .inl
    · exact (Grammar.bound_subset_alternatives others later h entry isBound).imp_left .inr

end

theorem mem_argumentNames_iff {grammar : Grammar} {name : String} :
    name ∈ Grammar.argumentNames grammar ↔ ∃ part ∈ grammar, name ∈ part.argumentNames := by
  induction grammar with
  | nil => simp [Grammar.argumentNames]
  | cons part parts ih => simp [Grammar.argumentNames, ih]

/-! ## Calls -/

variable {σ N : Type}

/-- What a handler may rely on in a call of a command by some tokens. -/
structure Reliable (command : Command σ N) (tokens : List String) (call : Call N) : Prop where
  /-- A required argument is never missing: to ask for it fails only if its token does not decode. -/
  required : ∀ name, Grammar.requires name command.grammar = true →
    ∃ raw, call.requireArgument name = .ok raw ∧
      ∀ fault, call.argument name = .error fault →
        ∃ cause, decode raw = .error cause ∧ fault = .invalid name cause
  /-- Names that are bound are names of a part of the command. -/
  named : ∀ name, call.hasArgument name = true →
    ∃ part ∈ command.grammar, name ∈ part.argumentNames
  /-- What they are bound to are tokens of the call. -/
  spoken : ∀ name raw, call.rawArgument? name = some raw → raw ∈ tokens

/-- Where an argument is there, to ask for its value fails only if its token does not decode. -/
theorem Call.exists_of_argument_eq_error {call : Call N} {name raw : String}
    (there : call.requireArgument name = .ok raw) {fault : ArgumentFault}
    (h : call.argument name = .error fault) :
    ∃ cause, decode raw = .error cause ∧ fault = .invalid name cause := by
  rw [Call.argument, there] at h
  cases decoded : decode raw with
  | ok value => simp [decoded, Except.mapError] at h
  | error cause =>
    simp only [decoded, Except.mapError, Except.error.injEq] at h
    exact ⟨cause, rfl, h.symm⟩

theorem reliable_of_match? {resolution : Resolution σ N} {tokens : List String}
    (h : Grammar.match? tokens resolution.command.grammar = some resolution.found) :
    Reliable resolution.command tokens resolution.call := by
  obtain ⟨front, back, bound, rfl, isRun, derives⟩ := Grammar.derives_of_match? _ h
  have raw? : ∀ name, resolution.call.rawArgument? name = (Bindings.ofList bound).get? name := by
    intro name
    rw [Call.rawArgument?, Resolution.call, isRun, Match.ofRun]
  refine ⟨fun name required => ?_, fun name isBound => ?_, fun name raw found => ?_⟩
  · have isName := Bindings.mem_names_ofList.2 (Grammar.exists_bound_of_requires _ derives required)
    obtain ⟨raw, found⟩ := Bindings.mem_names_iff.1 isName
    have there : resolution.call.requireArgument name = .ok raw := by
      rw [Call.requireArgument, raw?, found]
    exact ⟨raw, there, fun fault fails => Call.exists_of_argument_eq_error there fails⟩
  · rw [Call.hasArgument, Bindings.contains, ← Call.rawArgument?, raw?, Option.isSome_iff_exists]
      at isBound
    obtain ⟨token, member⟩ := Bindings.mem_names_ofList.1 (Bindings.mem_names_iff.2 isBound)
    exact mem_argumentNames_iff.1 (Grammar.bound_subset _ derives _ member).1
  · rw [raw?] at found
    obtain ⟨earlier, later, equal, -⟩ := Bindings.get?_ofList_eq_some_iff.1 found
    have member : (name, raw) ∈ bound := by
      rw [equal]
      simp
    exact List.mem_append_left back (Grammar.bound_subset _ derives _ member).2

/-- **Arguments.** Each call of an input is one of a given command, and its handler may rely on the grammar
of the command. An argument that the grammar requires is there, so that to ask for it fails only if its
token spells no value. A name that is bound is one of a part of the grammar, and it is bound to a token of
that very call. -/
theorem resolveInput_reliable {input : String} {commands : List (Command σ N)}
    {resolutions : List (Resolution σ N)} (h : resolveInput input commands = .ok resolutions) :
    ∃ calls, tokenize input = .ok calls ∧
      List.Forall₂ (fun tokens resolution => resolution.command ∈ commands ∧
        Reliable resolution.command tokens resolution.call) calls resolutions := by
  rw [resolveInput] at h
  cases read : tokenize input with
  | error fault => simp [read] at h
  | ok calls =>
    simp only [read] at h
    refine ⟨calls, rfl, (resolveCalls_eq_ok_iff.1 h).imp fun tokens resolution resolves => ?_⟩
    obtain ⟨member, fits⟩ := of_resolve resolves
    exact ⟨member, reliable_of_match? fits⟩

/-- Of the two arguments the one that each choice binds is required, and the one that may be left out is
not. -/
theorem resolveInput_reliable_move :
    let move : Command Unit String :=
      ⟨"move", [.literal ["move"] false,
        .choices [[.literal ["all"] true, .argument "to"], [.argument "to"]],
        .optional [.argument "speed"]], none, none⟩
    Grammar.requires "to" move.grammar = true ∧ Grammar.requires "speed" move.grammar = false ∧
    ∃ first second, resolveInput "move home; MOVE all home fast" [move] = .ok [first, second] ∧
      Reliable first.command ["move", "home"] first.call ∧
      Reliable second.command ["MOVE", "all", "home", "fast"] second.call ∧
      first.call.hasArgument "speed" = false ∧ second.call.hasArgument "speed" = true := by
  intro move
  refine ⟨by decide, by decide, ?_⟩
  have read : tokenize "move home; MOVE all home fast" =
      .ok [["move", "home"], ["MOVE", "all", "home", "fast"]] := by
    cbv
  have fits : Grammar.match? ["move", "home"] move.grammar =
      some ⟨2, Bindings.empty.insert "to" "home"⟩ := by
    decide +kernel
  have fits' : Grammar.match? ["MOVE", "all", "home", "fast"] move.grammar =
      some ⟨4, (Bindings.empty.insert "to" "home").insert "speed" "fast"⟩ := by
    decide +kernel
  have resolves : resolveInput "move home; MOVE all home fast" [move] =
      .ok [⟨move, 2, Bindings.empty.insert "to" "home"⟩,
        ⟨move, 4, (Bindings.empty.insert "to" "home").insert "speed" "fast"⟩] := by
    simp [resolveInput, read, resolveCalls, resolve, Command.fullMatch?, Command.match?, fits, fits',
      better]
  obtain ⟨calls, read', reliable⟩ := resolveInput_reliable resolves
  rw [read] at read'
  cases read'
  obtain ⟨⟨-, first⟩, later⟩ := List.forall₂_cons.1 reliable
  obtain ⟨⟨-, second⟩, -⟩ := List.forall₂_cons.1 later
  exact ⟨_, _, resolves, first, second, by decide, by decide⟩

end Phrasebook
