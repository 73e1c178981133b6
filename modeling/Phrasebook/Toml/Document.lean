import Phrasebook.Toml.Strings
import Phrasebook.Toml.Scalar
import Phrasebook.Toml.Table
import Phrasebook.Value.Reader

/-!
# Documents of TOML

`parse?` reads a TOML document into its top table. A document is a list of lines: a header opens a table
or adds an element to an array of tables, and the values that follow go into it. A document that breaks
a rule, of the notation or about defining things twice, is refused as a whole.

Values nest in arrays and braces up to `nestingLimit` deep; the readers of arrays and braces are given the
reader of the values inside them, so that the depth is what they recur on.
-/

namespace Phrasebook.Toml

open Phrasebook.Value (Taken)

/-- A reader of one value. -/
abbrev ItemReader := (text : List Char) → Option (Taken Item text)

/-! ## Values -/

/-- Whether a character may occur in a value without quotes and brackets. -/
def isScalarChar (c : Char) : Bool :=
  c.isAlphanum || c = '_' || c = '+' || c = '-' || c = '.' || c = ':'

/-- What a table holds for a scalar. -/
def Scalar.item : Scalar → Item
  | .integer => .other "integer"
  | .float => .other "float"
  | .boolean => .other "boolean"
  | .datetime text => .datetime (String.ofList text)

/-- The length of the scalar at the front of a text and the scalar. A date may be followed by a blank
and a time. -/
def scalarAt? (text : List Char) : Option (Nat × Scalar) :=
  let word := text.takeWhile isScalarChar
  let rest := text.dropWhile isScalarChar
  match rest with
  | c :: time =>
    if c = ' ' ∧ isDate word ∧ (time.head?.map Char.isDigit).getD false then
      let clock := time.takeWhile isScalarChar
      (datetime? (word ++ 'T' :: clock)).map (word.length + 1 + clock.length, .datetime ·)
    else (scalar? word).map (word.length, ·)
  | [] => (scalar? word).map (word.length, ·)

/-- Takes the items of an array and its closing bracket, with comments and line breaks between them. A
comma may follow the last item. -/
def takeArray (item : ItemReader) (text : List Char) : Option (Taken (List Item) text) :=
  match filled : skipFiller? text with
  | none => none
  | some [] => none
  | some (c :: tail) =>
    have bound : tail.length < text.length := length_le_of_skipFiller? filled
    if c = ']' then some ⟨[], tail, bound⟩
    else
      match item (c :: tail) with
      | none => none
      | some first =>
        have closer : first.rest.length < text.length := Nat.lt_of_lt_of_le first.shorter bound
        match ended : skipFiller? first.rest with
        | none => none
        | some [] => none
        | some (d :: rest) =>
          have closest : rest.length < text.length :=
            Nat.lt_trans (length_le_of_skipFiller? ended) closer
          if d = ']' then some ⟨[first.value], rest, closest⟩
          else if d = ',' then
            (takeArray item rest).map (·.widen (first.value :: ·) (Nat.le_of_lt closest))
          else none
termination_by text.length

/-- Takes a key, an equals sign and a value. -/
def takePair (item : ItemReader) (text : List Char) :
    Option (Taken (List String × Item) text) :=
  match keyed : readKey? text with
  | none => none
  | some (key, rest) =>
    match equals : skipBlanks rest with
    | [] => none
    | c :: tail =>
      have bound : (skipBlanks tail).length ≤ text.length :=
        Nat.le_of_lt (Nat.lt_of_le_of_lt (length_skipBlanks_le tail)
          (Nat.lt_trans (length_lt_of_skipBlanks equals) (length_lt_of_readKey? keyed)))
      if c = '=' then (item (skipBlanks tail)).map (·.widen (key, ·) bound)
      else none

/-- Puts the value of a pair at its key. -/
def insertPair? (pair : List String × Item) (members : Members Item) : Option (Members Item) := do
  let (path, key) ← splitLast? pair.1
  insertAt? key pair.2 path members

/-- Takes the pairs of a table in braces, of which there is at least one, and the closing brace. -/
def takePairs (item : ItemReader) (members : Members Item) (text : List Char) :
    Option (Taken (Members Item) text) :=
  match takePair item text with
  | none => none
  | some pair =>
    match insertPair? pair.value members with
    | none => none
    | some members =>
      have bound := pair.shorter
      match ended : skipBlanks pair.rest with
      | [] => none
      | c :: rest =>
        have closest : rest.length < text.length :=
          Nat.lt_trans (length_lt_of_skipBlanks ended) bound
        have closer : (skipBlanks rest).length < text.length :=
          Nat.lt_of_le_of_lt (length_skipBlanks_le rest) closest
        if c = '}' then some ⟨members, rest, closest⟩
        else if c = ',' then
          (takePairs item members (skipBlanks rest)).map (·.widen id (Nat.le_of_lt closer))
        else none
termination_by text.length

theorem length_drop_lt (c : Char) (tail : List Char) {count : Nat} (h : 0 < count) :
    ((c :: tail).drop count).length < (c :: tail).length := by
  rw [List.length_drop, List.length_cons]
  omega

/-- Takes a value in which arrays and tables in braces nest at most `depth` deep. -/
def takeItem (depth : Nat) (text : List Char) : Option (Taken Item text) :=
  match text with
  | [] => none
  | c :: tail =>
    match quoteKind? c with
    | some escapes =>
      match read : readString? c escapes tail with
      | none => none
      | some (content, rest) =>
        some ⟨.string (String.ofList content), rest,
          Nat.lt_succ_of_lt (length_lt_of_readString? read)⟩
    | none =>
      if c = '[' then
        match depth with
        | 0 => none
        | depth + 1 =>
          (takeArray (takeItem depth) tail).map (·.widen .array (Nat.le_succ _))
      else if c = '{' then
        match depth with
        | 0 => none
        | depth + 1 =>
          match opened : skipBlanks tail with
          | [] => none
          | d :: rest =>
            have bound : rest.length < tail.length := length_lt_of_skipBlanks opened
            if d = '}' then some ⟨.table .inline [], rest, Nat.lt_succ_of_lt bound⟩
            else
              (takePairs (takeItem depth) [] (d :: rest)).map
                (·.widen (.table .inline) (Nat.le_succ_of_le bound))
      else
        match scalarAt? (c :: tail) with
        | none => none
        | some (length, scalar) =>
          if h : 0 < length then
            some ⟨scalar.item, (c :: tail).drop length, length_drop_lt c tail h⟩
          else none
termination_by depth

/-! ## Lines -/

/-- What a line of a document says. -/
inductive Line where
  | table (path : List String) (key : String)
  | element (path : List String) (key : String)
  | pair (path : List String) (key : String) (item : Item)

/-- Takes the rest of a line: blanks and a comment, up to the line break or the end of the text. -/
def endLine? (text : List Char) : Option (List Char) :=
  match skipComment? (skipBlanks text) with
  | none => none
  | some [] => some []
  | some rest => takeNewline? rest

theorem length_le_of_endLine? {text rest : List Char} (h : endLine? text = some rest) :
    rest.length ≤ text.length := by
  unfold endLine? at h
  have := length_skipBlanks_le text
  grind [→ length_le_of_skipComment?, → length_lt_of_takeNewline?]

/-- Reads the key of a header and the bracket behind it. -/
def readHeader? (text : List Char) : Option (List String × String × List Char) :=
  match readKey? (skipBlanks text) with
  | none => none
  | some (components, rest) =>
    match splitLast? components, takeChar? ']' (skipBlanks rest) with
    | some (path, key), some rest => some (path, key, rest)
    | _, _ => none

/-- Reads what a line says, and gives it with the rest of the line. -/
def readLine? (text : List Char) : Option (Line × List Char) :=
  match text with
  | [] => none
  | c :: tail =>
    if c = '[' then
      match takeChar? '[' tail with
      | some inner =>
        match readHeader? inner with
        | none => none
        | some (path, key, rest) =>
          match takeChar? ']' rest with
          | none => none
          | some rest => some (.element path key, rest)
      | none =>
        match readHeader? tail with
        | none => none
        | some (path, key, rest) => some (.table path key, rest)
    else
      match takePair (takeItem nestingLimit) (c :: tail) with
      | none => none
      | some pair =>
        match splitLast? pair.value.1 with
        | none => none
        | some (path, key) => some (.pair path key pair.value.2, pair.rest)

theorem length_lt_of_readHeader? {text : List Char} {result : List String × String × List Char}
    (h : readHeader? text = some result) : result.2.2.length < text.length := by
  unfold readHeader? at h
  split at h
  · cases h
  · next components rest keyed =>
    have shorter := length_lt_of_readKey? keyed
    have := length_skipBlanks_le text
    have := length_skipBlanks_le rest
    split at h
    · next path key rest' _ closed =>
      have := length_lt_of_takeChar? closed
      rw [← Option.some.inj h]
      simp only at shorter ⊢
      omega
    · cases h

/-- A line takes at least one character. -/
theorem length_lt_of_readLine? {text : List Char} {result : Line × List Char}
    (h : readLine? text = some result) : result.2.length < text.length := by
  unfold readLine? at h
  split at h
  · cases h
  · next c tail =>
    split at h
    · split at h
      · next inner opened =>
        have := length_lt_of_takeChar? opened
        grind [→ length_lt_of_readHeader?, → length_lt_of_takeChar?]
      · grind [→ length_lt_of_readHeader?]
    · split at h
      · cases h
      · next pair _ =>
        have := pair.shorter
        grind

/-- A document as far as it has been read: its top table, and where values go. -/
structure Document where
  root : Members Item
  current : List String

namespace Document

/-- A document without any lines. -/
def empty : Document := ⟨[], []⟩

/-- What a line adds to a document. -/
def add? (document : Document) : Line → Option Document
  | .table path key => do
    return ⟨← alterAt? (openTable? key) path document.root, path ++ [key]⟩
  | .element path key => do
    return ⟨← alterAt? (openElement? key) path document.root, path ++ [key]⟩
  | .pair path key item => do
    return { document with
      root := ← alterAt? (insertAt? key item path) document.current document.root }

/-- Adds the lines of a text to a document. -/
def addLines? (document : Document) (text : List Char) : Option Document :=
  match filled : skipFiller? text with
  | none => none
  | some [] => some document
  | some (c :: tail) =>
    match read : readLine? (c :: tail) with
    | none => none
    | some (line, rest) =>
      match document.add? line, ended : endLine? rest with
      | some document, some rest' =>
        have : rest'.length < text.length :=
          Nat.lt_of_le_of_lt (length_le_of_endLine? ended)
            (Nat.lt_of_lt_of_le (length_lt_of_readLine? read) (length_le_of_skipFiller? filled))
        addLines? document rest'
      | _, _ => none
termination_by text.length

end Document

/-- The top table of a document. A byte order mark in front of it is dropped. -/
def parse? (text : String) : Option (Members Item) :=
  let text := match text.toList with
    | c :: tail => if c = '\uFEFF' then tail else c :: tail
    | [] => []
  (Document.empty.addLines? text).map (·.root)

end Phrasebook.Toml
