import Phrasebook.Value.Basic
import Phrasebook.Number.Digits
import Phrasebook.Number.Shortest

/-!
# JSON text of values

Two ways to write a value as JSON: `compact`, without any blanks, and `pretty`, with one item or
member to a line and two blanks per level. In both, a string is written as it is but for quotes,
backslashes and controls (`jsonString`), and an array or object without content has nothing between
its brackets.
-/

namespace Phrasebook.Value

/-- A character inside a JSON string: quote, backslash and controls are escaped. -/
def jsonChar (c : Char) : List Char :=
  if c = '"' then ['\\', '"']
  else if c = '\\' then ['\\', '\\']
  else if c = '\n' then ['\\', 'n']
  else if c = '\r' then ['\\', 'r']
  else if c = '\t' then ['\\', 't']
  else if c = '\x08' then ['\\', 'b']
  else if c = '\x0c' then ['\\', 'f']
  else if c.toNat < 0x20 then
    ['\\', 'u', '0', '0', Nat.digitChar (c.toNat / 16), Nat.digitChar (c.toNat % 16)]
  else [c]

/-- A JSON string. -/
def jsonString (text : String) : List Char :=
  '"' :: text.toList.flatMap jsonChar ++ ['"']

/-- A value that has no parts. -/
def jsonAtom : Value → List Char
  | .null => "null".toList
  | .bool true => "true".toList
  | .bool false => "false".toList
  | .int n => Number.decimalInt n
  | .float x => x.text
  | .string text => jsonString text
  | .array _ => []
  | .object _ => []

/-! ## Without blanks -/

mutual

/-- The text of a value without blanks. -/
def compact : Value → List Char
  | .array items => '[' :: compactItems items ++ [']']
  | .object members => '{' :: compactMembers members ++ ['}']
  | value => jsonAtom value

/-- The items of an array with commas between them. -/
def compactItems : List Value → List Char
  | [] => []
  | [item] => compact item
  | item :: items => compact item ++ ',' :: compactItems items

/-- The members of an object with commas between them. -/
def compactMembers : List (String × Value) → List Char
  | [] => []
  | [(name, value)] => jsonString name ++ ':' :: compact value
  | (name, value) :: members =>
    jsonString name ++ ':' :: compact value ++ ',' :: compactMembers members

end

/-! ## One item to a line -/

/-- The end of a line and the blanks in front of the next one. -/
def newLine (level : Nat) : List Char :=
  '\n' :: List.replicate (2 * level) ' '

mutual

/-- The text of a value whose first line is indented by `level` already. -/
def prettyAt (level : Nat) : Value → List Char
  | .array [] => ['[', ']']
  | .array (item :: items) =>
    '[' :: newLine (level + 1) ++ prettyAt (level + 1) item ++ prettyItems (level + 1) items ++
      newLine level ++ [']']
  | .object [] => ['{', '}']
  | .object ((name, value) :: members) =>
    '{' :: newLine (level + 1) ++ jsonString name ++ ':' :: ' ' :: prettyAt (level + 1) value ++
      prettyMembers (level + 1) members ++ newLine level ++ ['}']
  | value => jsonAtom value

/-- The items of an array behind its first one. -/
def prettyItems (level : Nat) : List Value → List Char
  | [] => []
  | item :: items => ',' :: newLine level ++ prettyAt level item ++ prettyItems level items

/-- The members of an object behind its first one. -/
def prettyMembers (level : Nat) : List (String × Value) → List Char
  | [] => []
  | (name, value) :: members =>
    ',' :: newLine level ++ jsonString name ++ ':' :: ' ' :: prettyAt level value ++
      prettyMembers level members

end

/-- The text of a value with one item or member to a line. -/
def pretty (value : Value) : String :=
  String.ofList (prettyAt 0 value)

/-- The text of a value on one line. -/
def toJson (value : Value) : String :=
  String.ofList (compact value)

end Phrasebook.Value
