import Phrasebook.Grammar.Basic
import Phrasebook.Value.Decode

/-!
# Grammars as values

A part is encoded as an object whose member `kind` says which of the four parts it is and whose other
members hold what the part consists of (`Part.toValue`). `Grammar.ofValue` reads such a value back. It
accepts members in any order and ignores unknown ones; `case_sensitive` may be left out. A part may
also be given as a list: its kind, and then its contents in order.

The parts inside another part are read from a copy of it, in which a kind may also be given by its
number; `inside` tells the two cases apart.
-/

namespace Phrasebook

open Value

/-! ## Writing -/

mutual

/-- The value that stands for a part. -/
def Part.toValue : Part → Value
  | .literal tokens caseSensitive => .object [("kind", .string "literal"),
      ("tokens", .array (tokens.map .string)), ("case_sensitive", .bool caseSensitive)]
  | .argument name => .object [("kind", .string "argument"), ("name", .string name)]
  | .optional body =>
    .object [("kind", .string "optional"), ("components", .array (Grammar.toValues body))]
  | .choices alternatives => .object [("kind", .string "choices"),
      ("choices", .array (Grammar.alternativeValues alternatives))]

/-- The values that stand for the parts of a grammar. -/
def Grammar.toValues : List Part → List Value
  | [] => []
  | part :: parts => part.toValue :: Grammar.toValues parts

/-- The values that stand for alternatives. -/
def Grammar.alternativeValues : List (List Part) → List Value
  | [] => []
  | alternative :: alternatives =>
    .array (Grammar.toValues alternative) :: Grammar.alternativeValues alternatives

end

/-- The value that stands for a grammar: the list of its parts. -/
def Grammar.toValue (grammar : Grammar) : Value :=
  .array (Grammar.toValues grammar)

/-! ## Reading -/

/-- The four kinds of parts. -/
inductive PartKind where
  | literal
  | argument
  | optional
  | choices
  deriving DecidableEq, Repr

namespace PartKind

/-- The kinds in the order of their numbers. -/
def all : List PartKind := [.literal, .argument, .optional, .choices]

/-- The name of a kind. -/
def name : PartKind → String
  | .literal => "literal"
  | .argument => "argument"
  | .optional => "optional"
  | .choices => "choices"

/-- What a part of the kind consists of, as messages about lists name it. -/
def listShape : PartKind → String
  | .literal => "struct variant CommandComponent::Literal with 2 elements"
  | .argument => "struct variant CommandComponent::Argument with 1 element"
  | .optional => "struct variant CommandComponent::Optional with 1 element"
  | .choices => "struct variant CommandComponent::Choices with 1 element"

/-- The kind that a value names. -/
def ofValue (inside : Bool) : Value → Except Mismatch PartKind
  | .string text =>
    match all.find? (·.name = text) with
    | some kind => .ok kind
    | none => .error (.unknownVariant text (all.map name))
  | .int n =>
    if inside ∧ 0 ≤ n then
      match all[n.toNat]? with
      | some kind => .ok kind
      | none => .error (.wrongValue (.int n) "variant index 0 <= i < 4")
    else .error (.wrongType (.int n) "variant identifier")
  | found => .error (.wrongType found "variant identifier")

end PartKind

/-- The field of a name, if there is one. Of several faulty fields the first counts, so every field is
looked at before one is missed. -/
def field {α : Type} [FromValue α] (members : Members Value) (name : String) :
    Except Mismatch (Option α) :=
  match members.find? name with
  | none => .ok none
  | some value => (fromValue value).map some

/-- A field that must be there. -/
def required {α : Type} (name : String) : Option α → Except Mismatch α
  | some value => .ok value
  | none => .error (.missingField name)

/-- Checks the fields of a literal in the order in which they are given. -/
def checkLiteral : List (String × Value) → Except Mismatch Unit
  | [] => .ok ()
  | (name, value) :: members =>
    if name = "tokens" then do
      let _ : List String ← fromValue value
      checkLiteral members
    else if name = "case_sensitive" then do
      let _ : Bool ← fromValue value
      checkLiteral members
    else checkLiteral members

/-- Reads a literal from its members. -/
def literalOfMembers (members : List (String × Value)) : Except Mismatch Part := do
  checkLiteral members
  let tokens ← field members "tokens"
  let caseSensitive ← field members "case_sensitive"
  return .literal (← required "tokens" tokens) (caseSensitive.getD false)

/-- Reads an argument from its members. -/
def argumentOfMembers (members : List (String × Value)) : Except Mismatch Part := do
  let name ← field members "name"
  return .argument (← required "name" name)

/-- Refuses a list that goes on behind its `count` items, `extra` being what goes on. -/
def ended (count : Nat) (extra : List Value) : Except Mismatch Unit :=
  if extra.isEmpty then .ok ()
  else .error (.wrongLength (count + extra.length)
    (toString count ++ (if count = 1 then " element" else " elements") ++ " in sequence"))

/-- Reads a literal from its contents in order. -/
def literalOfItems : List Value → Except Mismatch Part
  | [] => .error (.wrongLength 0 (PartKind.listShape .literal))
  | [tokens] => do return .literal (← fromValue tokens) false
  | tokens :: caseSensitive :: extra => do
    let part : Part := .literal (← fromValue tokens) (← fromValue caseSensitive)
    ended 2 extra
    return part

/-- Reads an argument from its contents in order. -/
def argumentOfItems : List Value → Except Mismatch Part
  | [] => .error (.wrongLength 0 (PartKind.listShape .argument))
  | name :: extra => do
    let part : Part := .argument (← fromValue name)
    ended 1 extra
    return part

mutual

/-- Reads a part. -/
def Part.ofValue (inside : Bool) : Value → Except Mismatch Part
  | .object members =>
    match Members.find? members "kind" with
    | none => .error (.missingField "kind")
    | some kind =>
      match PartKind.ofValue inside kind with
      | .error mismatch => .error mismatch
      | .ok .literal => literalOfMembers members
      | .ok .argument => argumentOfMembers members
      | .ok .optional => do
        return .optional (← required "components" (← bodyOfMembers members))
      | .ok .choices => do
        return .choices (← required "choices" (← choicesOfMembers members))
  | .array [] => .error (.missingField "kind")
  | .array (kind :: contents) =>
    match PartKind.ofValue inside kind with
    | .error mismatch => .error mismatch
    | .ok .literal => literalOfItems contents
    | .ok .argument => argumentOfItems contents
    | .ok .optional => bodyOfItems contents
    | .ok .choices => choicesOfItems contents
  | found => .error (.wrongType found "internally tagged enum CommandComponent")

/-- Reads the body of an optional part from its members. -/
def bodyOfMembers : List (String × Value) → Except Mismatch (Option Grammar)
  | [] => .ok none
  | (name, value) :: members =>
    if name = "components" then
      match grammarOfValue true value with
      | .error mismatch => .error mismatch
      | .ok body => .ok (some body)
    else bodyOfMembers members

/-- Reads the alternatives of a choice from its members. -/
def choicesOfMembers : List (String × Value) → Except Mismatch (Option (List Grammar))
  | [] => .ok none
  | (name, value) :: members =>
    if name = "choices" then
      match alternativesOfValue value with
      | .error mismatch => .error mismatch
      | .ok alternatives => .ok (some alternatives)
    else choicesOfMembers members

/-- Reads an optional part from its contents in order. -/
def bodyOfItems : List Value → Except Mismatch Part
  | [] => .error (.wrongLength 0 (PartKind.listShape .optional))
  | body :: extra =>
    match grammarOfValue true body with
    | .error mismatch => .error mismatch
    | .ok body => do
      ended 1 extra
      return .optional body

/-- Reads a choice from its contents in order. -/
def choicesOfItems : List Value → Except Mismatch Part
  | [] => .error (.wrongLength 0 (PartKind.listShape .choices))
  | alternatives :: extra =>
    match alternativesOfValue alternatives with
    | .error mismatch => .error mismatch
    | .ok alternatives => do
      ended 1 extra
      return .choices alternatives

/-- Reads a grammar. -/
def grammarOfValue (inside : Bool) : Value → Except Mismatch Grammar
  | .array items => partsOfItems inside items
  | found => .error (.wrongType found "a sequence")

/-- Reads parts one after another. -/
def partsOfItems (inside : Bool) : List Value → Except Mismatch Grammar
  | [] => .ok []
  | item :: items =>
    match Part.ofValue inside item with
    | .error mismatch => .error mismatch
    | .ok part =>
      match partsOfItems inside items with
      | .error mismatch => .error mismatch
      | .ok parts => .ok (part :: parts)

/-- Reads the alternatives of a choice. -/
def alternativesOfValue : Value → Except Mismatch (List Grammar)
  | .array items => alternativesOfItems items
  | found => .error (.wrongType found "a sequence")

/-- Reads alternatives one after another. -/
def alternativesOfItems : List Value → Except Mismatch (List Grammar)
  | [] => .ok []
  | item :: items =>
    match grammarOfValue true item with
    | .error mismatch => .error mismatch
    | .ok alternative =>
      match alternativesOfItems items with
      | .error mismatch => .error mismatch
      | .ok alternatives => .ok (alternative :: alternatives)

end

instance : FromValue Part := ⟨Part.ofValue false⟩

/-- The grammar that a value stands for. -/
def Grammar.ofValue (value : Value) : Except Mismatch Grammar :=
  grammarOfValue false value

end Phrasebook
