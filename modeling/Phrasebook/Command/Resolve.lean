import Phrasebook.Command.Basic

/-!
# Resolving calls

Which command a call means. A command is a candidate when its grammar takes all tokens of the call
(`Command.fullMatch?`). `findMatches` lists the candidates in the order of the commands and `resolve`
picks one: the one that takes the most tokens, the earliest of several.

`resolveInput` resolves every call of an input, `resolveSingle` the only one, and `findInputMatches` lists
the candidates for the only one.
-/

namespace Phrasebook

open Phrasebook.Input

variable {σ N : Type}

/-- A command with a match of its grammar. -/
structure Resolution (σ N : Type) where
  command : Command σ N
  found : Match

namespace Resolution

/-- The call, as handlers see it. -/
def call (resolution : Resolution σ N) : Call N :=
  ⟨resolution.command.name, resolution.found.arguments, resolution.found.tokenCount⟩

end Resolution

/-- The match of a command that takes all tokens. -/
def Command.fullMatch? (tokens : List String) (command : Command σ N) :
    Option (Resolution σ N) :=
  match command.match? tokens with
  | none => none
  | some found => if found.tokenCount < tokens.length then none else some ⟨command, found⟩

/-- The commands that take all tokens, in order. -/
def findMatches (tokens : List String) (commands : List (Command σ N)) :
    List (Resolution σ N) :=
  commands.filterMap (·.fullMatch? tokens)

/-- The better of what was found so far and a candidate: only one that takes more tokens replaces an
earlier one. -/
def better (best : Option (Resolution σ N)) (candidate : Resolution σ N) :
    Option (Resolution σ N) :=
  match best with
  | none => some candidate
  | some current =>
    if current.found.tokenCount < candidate.found.tokenCount then some candidate else some current

/-- The command that tokens call. -/
def resolve (tokens : List String) (commands : List (Command σ N)) : Option (Resolution σ N) :=
  commands.foldl (fun best command =>
    match command.fullMatch? tokens with
    | none => best
    | some candidate => better best candidate) none

/-! ## Inputs -/

/-- Resolves token lists one after another, up to the first that no command takes. -/
def resolveCalls (commands : List (Command σ N)) :
    List (List String) → Except Failure (List (Resolution σ N))
  | [] => .ok []
  | tokens :: calls =>
    match resolve tokens commands with
    | none => .error (.commandNotFound tokens)
    | some resolution =>
      match resolveCalls commands calls with
      | .error failure => .error failure
      | .ok resolutions => .ok (resolution :: resolutions)

/-- Resolves every call of an input. -/
def resolveInput (input : String) (commands : List (Command σ N)) :
    Except Failure (List (Resolution σ N)) :=
  match tokenize input with
  | .error fault => .error (.input fault)
  | .ok calls => resolveCalls commands calls

/-- Resolves the only call of an input. -/
def resolveSingle (input : String) (commands : List (Command σ N)) :
    Except Failure (Resolution σ N) :=
  match resolveInput input commands with
  | .error failure => .error failure
  | .ok [resolution] => .ok resolution
  | .ok _ => .error (.input (.notSingle input))

/-- The commands that take all tokens of the only call of an input, in order. -/
def findInputMatches (input : String) (commands : List (Command σ N)) :
    Except Failure (List (Resolution σ N)) :=
  match tokenizeSingle input with
  | .error fault => .error (.input fault)
  | .ok tokens => .ok (findMatches tokens commands)

end Phrasebook
