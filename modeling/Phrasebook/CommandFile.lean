import Phrasebook.Command.Basic
import Phrasebook.Toml.Document
import Phrasebook.Value.Json

/-!
# Command files

A command file names format strings: the table `commands` of a TOML document, or a JSON object. The
commands are tried in the order in which the file declares them. The extension of the file's path says
which notation it is in; `CommandFile.load` goes from the path and the text to the commands.

The two notations have parsers of their own, which `load` is given (`Parsers`). Those of the program are
`Parsers.standard`. They do not say what in a text is malformed, only that it is.
-/

namespace Phrasebook.CommandFile

/-- Why a command file gives no commands. -/
inductive Fault where
  | unreadable (path reason : String)
  | unsupported (path : String)
  | malformed (reason : String)
  | notText (name : String) (found : Option String)
  | invalidFormat (name : String) (fault : FormatFault)

/-- The wording of a fault. -/
def Fault.message : Fault → String
  | .unreadable path reason => "cannot read " ++ path ++ ": " ++ reason
  | .unsupported path =>
    "unsupported command file " ++ path ++ " (expected .toml or .json)"
  | .malformed reason => reason
  | .notText name found =>
    "command '" ++ name ++ "' must be a format string" ++
      match found with
      | some kind => ", found " ++ kind
      | none => ""
  | .invalidFormat name fault => "command '" ++ name ++ "': " ++ fault.message

/-! ## Paths -/

/-- The components of a path, without empty ones and references to the place itself. -/
def components (path : List Char) : List (List Char) :=
  (path.splitOn '/').filter fun component => !component.isEmpty && component ≠ ['.']

/-- The extension of a path: what follows the last point in its last component, unless that point comes
first. -/
def extension? (path : String) : Option String :=
  match (components path.toList).getLast? with
  | none => none
  | some name =>
    let extension := (name.reverse.takeWhile (· ≠ '.')).reverse
    if name = ['.', '.'] ∨ name.length ≤ extension.length + 1 then none
    else some (String.ofList extension)

/-! ## Parsers -/

/-- Parsers of the two notations. Each gives the entries that a text declares, in the order of the text,
or says why the text is malformed. -/
structure Parsers where
  toml : String → Except String (Members Toml.Item)
  json : String → Except String (Members Value)

/-- The entries of the table `commands` of a TOML document. A date in the place of the table counts as a
table that holds its text. -/
def tomlEntries (text : String) : Except String (Members Toml.Item) :=
  match (Toml.parse? text).bind fun root => Members.find? root "commands" with
  | some (.table _ members) =>
    if Toml.allSoundMembers members then .ok members else .error "malformed TOML command file"
  | some (.datetime text) => .ok [(Toml.dateKey, .string text)]
  | _ => .error "malformed TOML command file"

/-- How deep the arrays and objects of a JSON file may nest. -/
def jsonNestingLimit : Nat := 127

/-- The entries of a JSON object. -/
def jsonEntries (text : String) : Except String (Members Value) :=
  match Value.ofJson? jsonNestingLimit text with
  | some (.object members) => .ok members
  | _ => .error "malformed JSON command file"

/-- The parsers of the program. -/
def Parsers.standard : Parsers := ⟨tomlEntries, jsonEntries⟩

/-! ## Loading -/

/-- The format string that a TOML item is, or else its kind. -/
def tomlFormat : Toml.Item → Except (Option String) String
  | .string format => .ok format
  | item => .error (some item.kind)

/-- The format string that a JSON value is. -/
def jsonFormat : Value → Except (Option String) String
  | .string format => .ok format
  | _ => .error none

/-- The format strings of entries, under the names of the commands. -/
def takeFormats {α : Type} (format : α → Except (Option String) String) :
    Except String (Members α) → Except Fault (Members String)
  | .error reason => .error (.malformed reason)
  | .ok entries => entries.mapM fun (name, entry) =>
    match format entry with
    | .ok format => .ok (name, format)
    | .error found => .error (.notText name found)

/-- The format strings of a file, under the names of the commands. -/
def formats (parsers : Parsers) (path text : String) : Except Fault (Members String) :=
  match extension? path with
  | some "toml" => takeFormats tomlFormat (parsers.toml text)
  | some "json" => takeFormats jsonFormat (parsers.json text)
  | _ => .error (.unsupported path)

/-- The commands of a file, of which `contents` is the text or why it cannot be read. -/
def load {σ : Type} (parsers : Parsers) (path : String) (contents : Except String String) :
    Except Fault (List (Command σ String)) :=
  match contents with
  | .error reason => .error (.unreadable path reason)
  | .ok text => do
    (← formats parsers path text).mapM fun (name, format) =>
      (Command.define name format).mapError (.invalidFormat name)

end Phrasebook.CommandFile
