import Phrasebook.Members
import Phrasebook.Toml.Date

/-!
# Tables of TOML

The tables that a TOML document builds up, with their members in the order in which they were first
written. A table remembers how it came about (`Form`), because that decides how it may be extended:
`insertAt?` puts a value at a dotted key, `openTable?` opens the table of a header, and `openElement?`
adds an element to an array of tables. All three refuse what would define something twice.
-/

namespace Phrasebook.Toml

/-- How a table came about: on the way to another table, on the way to a value, by a header of its own,
or written out in braces. -/
inductive Form where
  | implied
  | dotted
  | headed
  | inline
  deriving DecidableEq, Repr

/-- What a key leads to. Of numbers and truth values only the kind is kept. -/
inductive Item where
  | string (text : String)
  | datetime (text : String)
  | other (kind : String)
  | array (items : List Item)
  | table (form : Form) (members : List (String × Item))
  | tables (elements : List (List (String × Item)))

/-! ## Kinds -/

/-- The key under which a table holds the text of a date. A table with this key in front is taken for the
date, whatever other keys it has. -/
def dateKey : String := "$__toml_private_datetime"

/-- The kind of an item, as messages name it. -/
def Item.kind : Item → String
  | .string _ => "string"
  | .datetime _ => "datetime"
  | .other kind => kind
  | .array _ => "array"
  | .table _ [] => "table"
  | .table _ ((key, _) :: _) => if key = dateKey then "datetime" else "table"
  | .tables _ => "array"

/-- Whether an item is a string that holds a date. -/
def Item.isDateString : Item → Bool
  | .string text => isDateText text.toList
  | _ => false

mutual

/-- Whether an item has a value: what is taken for a date must be one, here and in the parts. -/
def Item.isSound : Item → Bool
  | .string _ => true
  | .datetime _ => true
  | .other _ => true
  | .array items => allSound items
  | .table _ members => isSoundTable members
  | .tables elements => allSoundTables elements

/-- Whether all items of an array have values. -/
def allSound : List Item → Bool
  | [] => true
  | item :: items => item.isSound && allSound items

/-- Whether a table has a value. When it is taken for a date, the members behind the first one are not
looked at. -/
def isSoundTable : List (String × Item) → Bool
  | [] => true
  | (key, item) :: members =>
    if key = dateKey then item.isDateString else item.isSound && allSoundMembers members

/-- Whether all members of a table have values. -/
def allSoundMembers : List (String × Item) → Bool
  | [] => true
  | (_, item) :: members => item.isSound && allSoundMembers members

/-- Whether all elements of an array of tables have values. -/
def allSoundTables : List (List (String × Item)) → Bool
  | [] => true
  | element :: elements => isSoundTable element && allSoundTables elements

end

/-! ## Definitions -/

/-- The last of several elements and those in front of it. -/
def splitLast? {α : Type} (elements : List α) : Option (List α × α) :=
  elements.getLast?.map (elements.dropLast, ·)

/-- Puts an item at the end of a dotted key. Tables on the way are made if they are not there; those
with a header or braces are closed, and the last one must have been made by dotted keys. -/
def insertAt? (key : String) (item : Item) : List String → Members Item → Option (Members Item)
  | [], members =>
    if (members.find? key).isSome then none else some (members.insert key item)
  | step :: path, members =>
    match Members.find? members step with
    | none => do
      let inner ← insertAt? key item path []
      return members.insert step (.table .dotted inner)
    | some (.table form inner) =>
      if form = .headed ∨ form = .inline ∨ (path = [] ∧ form ≠ .dotted) then none
      else do
        let inner ← insertAt? key item path inner
        return members.insert step (.table form inner)
    | some (.tables elements) =>
      match path, splitLast? elements with
      | _ :: _, some (front, last) => do
        let last ← insertAt? key item path last
        return members.insert step (.tables (front ++ [last]))
      | _, _ => none
    | some _ => none

/-- Changes the table that a header leads to. Tables on the way are made if they are not there, and the
last element counts of an array of tables. -/
def alterAt? (change : Members Item → Option (Members Item)) :
    List String → Members Item → Option (Members Item)
  | [], members => change members
  | step :: path, members =>
    match Members.find? members step with
    | none => do
      let inner ← alterAt? change path []
      return members.insert step (.table .implied inner)
    | some (.table form inner) =>
      if form = .inline then none
      else do
        let inner ← alterAt? change path inner
        return members.insert step (.table form inner)
    | some (.tables elements) => do
      let (front, last) ← splitLast? elements
      let last ← alterAt? change path last
      return members.insert step (.tables (front ++ [last]))
    | some _ => none

/-- Opens the table of a header. A table that was only implied gets its header now and moves to the end;
any other one has been defined. -/
def openTable? (key : String) (members : Members Item) : Option (Members Item) :=
  match Members.find? members key with
  | none => some (members.insert key (.table .headed []))
  | some (.table .implied inner) =>
    some ((members.filter fun (name, _) => name ≠ key) ++ [(key, .table .headed inner)])
  | some _ => none

/-- Adds an empty element to an array of tables, which is made if it is not there. -/
def openElement? (key : String) (members : Members Item) : Option (Members Item) :=
  match Members.find? members key with
  | none => some (members.insert key (.tables [[]]))
  | some (.tables elements) => some (members.insert key (.tables (elements ++ [[]])))
  | some _ => none

end Phrasebook.Toml
