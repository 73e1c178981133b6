import Phrasebook.Grammar.Bindings
import Phrasebook.Value.Reader
import Phrasebook.Value.Decode

/-!
# Arguments of calls

A call keeps its arguments as the tokens they were written as; they are decoded when they are asked
for. `decode` reads a token as a value and `decodeAs` as something of a wanted shape. On a call,
`argument` and `argumentAs` do so with a named argument and tell why they cannot; the functions with
`try` answer `none` instead, and those with `Or` a default.
-/

namespace Phrasebook

/-! ## Decoding tokens -/

/-- Why a token does not decode. -/
inductive DecodeFault where
  | malformed (raw : String) (error : Value.SyntaxError)
  | unexpectedShape (raw : String) (mismatch : Mismatch)

/-- The wording of a fault. -/
def DecodeFault.message : DecodeFault → String
  | .malformed raw error => "Malformed value " ++ ticked raw ++ ": " ++ error.message
  | .unexpectedShape raw mismatch => "Unexpected shape " ++ ticked raw ++ ": " ++ mismatch.message

/-- The value that a token spells. -/
def decode (raw : String) : Except DecodeFault Value :=
  (Value.read raw).mapError (.malformed raw)

/-- What a token spells, taken for something of a wanted shape. -/
def decodeAs {α : Type} [FromValue α] (raw : String) : Except DecodeFault α :=
  match decode raw with
  | .error fault => .error fault
  | .ok value => (fromValue value).mapError (.unexpectedShape raw)

/-- A token spells what its characters are read as. -/
theorem decode_eq_ok_iff {raw : String} {value : Value} :
    decode raw = .ok value ↔ Value.readAll raw.toList = .ok value := by
  rw [decode, Value.read]
  constructor
  · intro h
    cases reads : Value.readAll raw.toList with
    | error fault =>
      rw [reads] at h
      cases h
    | ok found =>
      rw [reads] at h
      exact congrArg Except.ok (Except.ok.inj h)
  · intro h
    rw [h]
    rfl

/-! ## Calls -/

/-- A call of a command: the name of the command, the tokens bound to argument names, and the number
of tokens that the call took. Of the command only the name is kept; what needs more of it, as the choice
of a handler does, goes over resolutions, which have the command itself. -/
structure Call (N : Type) where
  name : N
  arguments : Bindings
  tokenCount : Nat

/-- Why an argument is not to be had. -/
inductive ArgumentFault where
  | missing (name : String)
  | invalid (name : String) (fault : DecodeFault)
  | misshapen (name shape : String) (fault : DecodeFault)
  | undecodable (fault : DecodeFault)

/-- The wording of a fault. -/
def ArgumentFault.message : ArgumentFault → String
  | .missing name => "Missing argument: '" ++ name ++ "'"
  | .invalid name fault => "Invalid argument: '" ++ name ++ "': " ++ fault.message
  | .misshapen name shape fault =>
    "Invalid argument: '" ++ name ++ "' (" ++ shape ++ "): " ++ fault.message
  | .undecodable fault => fault.message

namespace Call

variable {N : Type}

/-- Whether the call binds an argument. -/
def hasArgument (call : Call N) (name : String) : Bool :=
  call.arguments.contains name

/-- The token bound to an argument. -/
def rawArgument? (call : Call N) (name : String) : Option String :=
  call.arguments.get? name

/-- The token bound to an argument that must be there. -/
def requireArgument (call : Call N) (name : String) : Except ArgumentFault String :=
  match call.rawArgument? name with
  | some raw => .ok raw
  | none => .error (.missing name)

/-- The value of an argument. -/
def argument (call : Call N) (name : String) : Except ArgumentFault Value :=
  match call.requireArgument name with
  | .error fault => .error fault
  | .ok raw => (decode raw).mapError (.invalid name)

theorem argument_of_rawArgument? {call : Call N} {name raw : String}
    (h : call.rawArgument? name = some raw) :
    call.argument name = (decode raw).mapError (.invalid name) := by
  rw [argument, requireArgument, h]

/-- An argument of a wanted shape; messages call the shape `shape`. -/
def argumentAs {α : Type} [FromValue α] (call : Call N) (shape name : String) :
    Except ArgumentFault α :=
  match call.requireArgument name with
  | .error fault => .error fault
  | .ok raw => (decodeAs raw).mapError (.misshapen name shape)

/-- The value of an argument, if there is one. -/
def tryArgument? (call : Call N) (name : String) : Option Value :=
  (call.argument name).toOption

/-- An argument of a wanted shape, if there is one. -/
def tryArgumentAs? {α : Type} [FromValue α] (call : Call N) (name : String) : Option α :=
  (call.argumentAs "" name).toOption

/-- The value of an argument, or a default. -/
def argumentOr (call : Call N) (name : String) (default : Value) : Value :=
  (call.tryArgument? name).getD default

/-- An argument of a wanted shape, or a default. -/
def argumentAsOr {α : Type} [FromValue α] (call : Call N) (name : String) (default : α) : α :=
  (call.tryArgumentAs? name).getD default

end Call

end Phrasebook
