import Phrasebook.Number.Nearest
import Phrasebook.Value.Mismatch

/-!
# Values of a wanted shape

Reading a value as something more definite: a text, a truth value, a number of a certain range, a list,
and so on. `FromValue α` says how a value is taken for an `α`; nothing is converted that is not already
of the shape, but for whole numbers, which are doubles as well. The first part that does not fit
decides the mismatch.
-/

namespace Phrasebook

/-- How a value is taken for an `α`. -/
class FromValue (α : Type) where
  fromValue : Value → Except Mismatch α

export FromValue (fromValue)

/-- How an `α` is written as a value. -/
class ToValue (α : Type) where
  toValue : α → Value

namespace Value

/-- A text. -/
def asString : Value → Except Mismatch String
  | .string text => .ok text
  | found => .error (.wrongType found "a string")

/-- A truth value. -/
def asBool : Value → Except Mismatch Bool
  | .bool b => .ok b
  | found => .error (.wrongType found "a boolean")

/-- A text of one character. -/
def asChar : Value → Except Mismatch Char
  | .string text =>
    match text.toList with
    | [c] => .ok c
    | _ => .error (.wrongValue (.string text) "a character")
  | found => .error (.wrongType found "a character")

/-- A whole number from `low` to below `high`; messages call the range `range`. -/
def asInt (low high : Int) (range : String) : Value → Except Mismatch Int
  | .int n => if low ≤ n ∧ n < high then .ok n else .error (.wrongValue (.int n) range)
  | found => .error (.wrongType found range)

/-- A double, or a whole number as the double closest to it. -/
def asDouble : Value → Except Mismatch Number.Double
  | .float x => .ok x
  | .int n =>
    match Number.nearestInt? n with
    | some x => .ok x
    | none => .error (.wrongValue (.int n) "f64")
  | found => .error (.wrongType found "f64")

/-- The items of a list. -/
def asItems : Value → Except Mismatch (List Value)
  | .array items => .ok items
  | found => .error (.wrongType found "a sequence")

/-- The members of an object. -/
def asMembers : Value → Except Mismatch (Members Value)
  | .object members => .ok members
  | found => .error (.wrongType found "a map")

/-- A record with one field, given as an object or as a list. Messages call it `record`. -/
def asField (record field : String) : Value → Except Mismatch Value
  | .object members =>
    match Members.find? members field with
    | some value => .ok value
    | none => .error (.missingField field)
  | .array [] => .error (.wrongLength 0 ("struct " ++ record ++ " with 1 element"))
  | .array (value :: _) => .ok value
  | found => .error (.wrongType found ("struct " ++ record))

/-- A list with more items than are wanted does not fit, but its items are looked at first. -/
def noMoreThan (count : Nat) : Value → Except Mismatch Unit
  | .array items =>
    if count < items.length then .error (.wrongLength items.length "fewer elements in array")
    else .ok ()
  | _ => .ok ()

end Value

open Value

instance : FromValue Value := ⟨.ok⟩

instance : FromValue String := ⟨asString⟩

instance : ToValue String := ⟨.string⟩

instance : FromValue Bool := ⟨asBool⟩

instance : FromValue Char := ⟨asChar⟩

instance : FromValue Number.Double := ⟨asDouble⟩

instance : FromValue UInt8 :=
  ⟨fun value => (asInt 0 0x100 "u8" value).map fun n => UInt8.ofNat n.toNat⟩

instance : FromValue UInt64 :=
  ⟨fun value => (asInt 0 0x10000000000000000 "u64" value).map fun n => UInt64.ofNat n.toNat⟩

instance : FromValue Int32 :=
  ⟨fun value => (asInt (-0x80000000) 0x80000000 "i32" value).map Int32.ofInt⟩

instance : FromValue Int64 :=
  ⟨fun value => (asInt (-0x8000000000000000) 0x8000000000000000 "i64" value).map Int64.ofInt⟩

/-- Every item of a list is read. -/
instance {α : Type} [FromValue α] : FromValue (List α) :=
  ⟨fun value => do (← asItems value).mapM fromValue⟩

/-- A list is read item by item. -/
theorem fromValue_map {α β : Type} [FromValue α] {write : β → Value} {meaning : β → α}
    (h : ∀ item, fromValue (write item) = .ok (meaning item)) (items : List β) :
    fromValue (.array (items.map write)) = .ok (items.map meaning) := by
  change (items.map write).mapM fromValue = _
  induction items with
  | nil => rfl
  | cons item items ih =>
    rw [List.map_cons, List.mapM_cons, h, ih]
    rfl

/-- A missing value is given as null. -/
instance {α : Type} [FromValue α] : FromValue (Option α) :=
  ⟨fun
    | .null => .ok none
    | value => (fromValue value).map some⟩

/-- Values under names, in the order of the names. -/
structure Table (α : Type) where
  entries : Members α

/-- Every member of an object is read, in the order in which they were written. -/
instance {α : Type} [FromValue α] : FromValue (Table α) :=
  ⟨fun value => do
    let members ← (← asMembers value).mapM fun (name, value) => (fromValue value).map (name, ·)
    return ⟨members.mergeSort fun a b => a.1 ≤ b.1⟩⟩

/-- A pair is given as a list of two. -/
instance {α β : Type} [FromValue α] [FromValue β] : FromValue (α × β) :=
  ⟨fun
    | .array items => do
      let expected := "a tuple of size 2"
      let first :: rest := items | throw (.wrongLength 0 expected)
      let first ← fromValue first
      let second :: _ := rest | throw (.wrongLength 1 expected)
      let second ← fromValue second
      noMoreThan 2 (.array items)
      return (first, second)
    | found => .error (.wrongType found "a tuple of size 2")⟩

end Phrasebook
