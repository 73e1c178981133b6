import Mathlib.Data.List.Forall2
import Mathlib.Data.List.TakeWhile
import Phrasebook.CommandFile

/-!
# What command files hold

A command file declares entries: names, each with a format string or with something else (`Declares`).
The file holds commands when every entry has a format string and every format string compiles (`Holds`),
and it cannot be used for one of five reasons (`Unusable`). Loading gives the commands that the file
holds (`load_eq_ok_iff`) and fails exactly for the files that cannot be used
(`exists_load_eq_error_iff`). All of this is so for any parsers of the two notations; nothing is supposed
of them.
-/

namespace Phrasebook.CommandFile

variable {σ : Type} {parsers : Parsers} {path text : String} {contents : Except String String}

/-! ## Results -/

section

variable {α β ε : Type}

/-- To go through a list succeeds when it does for every element. -/
theorem mapM_eq_ok_iff {f : α → Except ε β} {elements : List α} {results : List β} :
    elements.mapM f = .ok results ↔
      List.Forall₂ (fun element result => f element = .ok result) elements results := by
  induction elements generalizing results with
  | nil => cases results <;> simp [pure, Except.pure]
  | cons element elements ih =>
    rw [List.mapM_cons]
    cases first : f element with
    | error fault => cases results <;> simp [bind, Except.bind, first]
    | ok result =>
      cases later : elements.mapM f with
      | error fault => cases results <;> simp [bind, Except.bind, first, ← ih, later]
      | ok others =>
        cases results <;> simp [bind, Except.bind, pure, Except.pure, first, ← ih, later]

theorem bind_eq_ok_iff {result : Except ε α} {next : α → Except ε β} {value : β} :
    result >>= next = .ok value ↔ ∃ middle, result = .ok middle ∧ next middle = .ok value := by
  cases result <;> simp [bind, Except.bind]

theorem mapError_eq_ok_iff {result : Except ε α} {change : ε → β} {value : α} :
    result.mapError change = .ok value ↔ result = .ok value := by
  cases result with
  | error fault => exact iff_of_false nofun nofun
  | ok found =>
    exact ⟨fun same => congrArg Except.ok (Except.ok.inj same),
      fun same => congrArg Except.ok (Except.ok.inj same)⟩

theorem map_eq_ok_iff {result : Except ε α} {change : α → β} {value : β} :
    result.map change = .ok value ↔ ∃ found, result = .ok found ∧ change found = value := by
  cases result <;> simp [Except.map]

theorem exists_of_forall₂ {related : α → β → Prop} {elements : List α} {results : List β}
    (h : List.Forall₂ related elements results) {element : α} (member : element ∈ elements) :
    ∃ result, related element result := by
  induction h with
  | nil => cases member
  | @cons _ result _ _ first _ ih =>
    rcases List.mem_cons.1 member with rfl | later
    · exact ⟨result, first⟩
    · exact ih later

end

/-! ## Extensions -/

/-- The extension of a path: what stands behind the last point in its last component, if something stands
in front of that point. The component of two points has none. -/
def HasExtension (path extension : String) : Prop :=
  ∃ stem, (components path.toList).getLast? = some (stem ++ '.' :: extension.toList) ∧
    stem ≠ [] ∧ '.' ∉ extension.toList ∧ stem ++ '.' :: extension.toList ≠ ['.', '.']

theorem ne_point_of_mem_reverse {name : List Char} (h : '.' ∉ name) :
    ∀ c ∈ name.reverse, decide (c ≠ '.') = true := by
  intro c member
  rw [decide_eq_true_eq]
  rintro rfl
  exact h (List.mem_reverse.1 member)

theorem reverse_takeWhile_of_notMem {extension : List Char} (stem : List Char)
    (last : '.' ∉ extension) :
    ((stem ++ '.' :: extension).reverse.takeWhile (· ≠ '.')).reverse = extension := by
  rw [List.reverse_append, List.reverse_cons, List.append_assoc, List.singleton_append,
    List.takeWhile_append_of_pos (ne_point_of_mem_reverse last),
    List.takeWhile_cons_of_neg (by simp), List.append_nil, List.reverse_reverse]

/-- The point that divides the last component is its last one. -/
theorem extension?_of_getLast? {stem extension : List Char}
    (name : (components path.toList).getLast? = some (stem ++ '.' :: extension))
    (last : '.' ∉ extension) :
    extension? path =
      if stem ++ '.' :: extension = ['.', '.'] ∨ stem = [] then none
      else some (String.ofList extension) := by
  have short : (stem ++ '.' :: extension).length ≤ extension.length + 1 ↔ stem = [] := by
    rw [List.length_append, List.length_cons, ← List.length_eq_zero_iff]
    omega
  rw [extension?, name]
  simp only [reverse_takeWhile_of_notMem stem last, short]

theorem extension?_of_notMem {name : List Char}
    (isName : (components path.toList).getLast? = some name) (h : '.' ∉ name) :
    extension? path = none := by
  rw [extension?, isName]
  simp only [List.takeWhile_eq_self_iff.2 (ne_point_of_mem_reverse h), List.reverse_reverse]
  exact if_pos (.inr (Nat.le_succ _))

theorem extension?_eq_some_iff {extension : String} :
    extension? path = some extension ↔ HasExtension path extension := by
  constructor
  · intro h
    cases isName : (components path.toList).getLast? with
    | none => simp [extension?, isName] at h
    | some name =>
      by_cases point : '.' ∈ name
      · obtain ⟨back, front, equal, last⟩ :=
          List.eq_append_cons_of_mem (List.mem_reverse.2 point)
        obtain rfl : name = front.reverse ++ '.' :: back.reverse := by
          rw [← List.reverse_reverse name, equal]
          simp
        have last' : '.' ∉ back.reverse := mt List.mem_reverse.1 last
        rw [extension?_of_getLast? isName last'] at h
        split at h
        · cases h
        · next divided =>
          obtain rfl := Option.some.inj h
          obtain ⟨notDots, notEmpty⟩ := not_or.1 divided
          rw [HasExtension, String.toList_ofList]
          exact ⟨front.reverse, isName, notEmpty, last', notDots⟩
      · rw [extension?_of_notMem isName point] at h
        cases h
  · rintro ⟨stem, isName, notEmpty, last, notDots⟩
    rw [extension?_of_getLast? isName last, if_neg (not_or.2 ⟨notDots, notEmpty⟩),
      String.ofList_toList]

theorem HasExtension.unique {first second : String} (h : HasExtension path first)
    (h' : HasExtension path second) : first = second :=
  Option.some.inj ((extension?_eq_some_iff.2 h).symm.trans (extension?_eq_some_iff.2 h'))

/-! ## Entries -/

/-- The text of an item of a TOML document that is a string. -/
def tomlText? : Toml.Item → Option String
  | .string text => some text
  | _ => none

/-- The text of a JSON value that is a string. -/
def jsonText? : Value → Option String
  | .string text => some text
  | _ => none

/-- Entries with the texts of what they hold. -/
def texts {α : Type} (text? : α → Option String) (members : Members α) :
    List (String × Option String) :=
  members.map fun (name, entry) => (name, text? entry)

/-- The entries that the text of a command file declares, in order: names, each with its text if it has
one. -/
inductive Declares (parsers : Parsers) (path text : String) : List (String × Option String) → Prop
  | toml {members : Members Toml.Item} :
    HasExtension path "toml" → parsers.toml text = .ok members →
    Declares parsers path text (texts tomlText? members)
  | json {members : Members Value} :
    HasExtension path "json" → parsers.json text = .ok members →
    Declares parsers path text (texts jsonText? members)

/-- A command file holds commands: it can be read, all its entries have format strings, and these
compile to the grammars of the commands. -/
def Holds (parsers : Parsers) (path : String) (contents : Except String String)
    (commands : List (Command σ String)) : Prop :=
  ∃ text formats, contents = .ok text ∧ Declares parsers path text (texts some formats) ∧
    List.Forall₂ (fun entry command => ∃ grammar, compile entry.2 = .ok grammar ∧
      command = { name := entry.1, grammar }) formats commands

/-- Why a command file cannot be used: it cannot be read, its extension is neither of the two, its parser
refuses its text, or an entry has no format string or one that does not compile. -/
inductive Unusable (parsers : Parsers) (path : String) : Except String String → Prop
  | unreadable {reason : String} : Unusable parsers path (.error reason)
  | unsupported {text : String} :
    ¬ HasExtension path "toml" → ¬ HasExtension path "json" → Unusable parsers path (.ok text)
  | malformedToml {text reason : String} :
    HasExtension path "toml" → parsers.toml text = .error reason → Unusable parsers path (.ok text)
  | malformedJson {text reason : String} :
    HasExtension path "json" → parsers.json text = .error reason → Unusable parsers path (.ok text)
  | notText {text name : String} {declared : List (String × Option String)} :
    Declares parsers path text declared → (name, none) ∈ declared → Unusable parsers path (.ok text)
  | invalidFormat {text name format : String} {declared : List (String × Option String)}
    {fault : FormatFault} :
    Declares parsers path text declared → (name, some format) ∈ declared →
    compile format = .error fault → Unusable parsers path (.ok text)

theorem declares_iff_toml (isToml : HasExtension path "toml")
    {declared : List (String × Option String)} :
    Declares parsers path text declared ↔
      (parsers.toml text).map (texts tomlText?) = .ok declared := by
  rw [map_eq_ok_iff]
  constructor
  · intro h
    cases h with
    | toml _ parsed => exact ⟨_, parsed, rfl⟩
    | json isJson _ => exact absurd (isToml.unique isJson) (by decide)
  · rintro ⟨members, parsed, rfl⟩
    exact .toml isToml parsed

theorem declares_iff_json (isJson : HasExtension path "json")
    {declared : List (String × Option String)} :
    Declares parsers path text declared ↔
      (parsers.json text).map (texts jsonText?) = .ok declared := by
  rw [map_eq_ok_iff]
  constructor
  · intro h
    cases h with
    | toml isToml _ => exact absurd (isToml.unique isJson) (by decide)
    | json _ parsed => exact ⟨_, parsed, rfl⟩
  · rintro ⟨members, parsed, rfl⟩
    exact .json isJson parsed

theorem Declares.extension {declared : List (String × Option String)}
    (h : Declares parsers path text declared) :
    HasExtension path "toml" ∨ HasExtension path "json" := by
  cases h with
  | toml isToml _ => exact .inl isToml
  | json isJson _ => exact .inr isJson

/-- A text declares its entries and no others. -/
theorem Declares.unique {first second : List (String × Option String)}
    (h : Declares parsers path text first) (h' : Declares parsers path text second) :
    first = second := by
  rcases h.extension with isToml | isJson
  · rw [declares_iff_toml isToml] at h h'
    exact Except.ok.inj (h.symm.trans h')
  · rw [declares_iff_json isJson] at h h'
    exact Except.ok.inj (h.symm.trans h')

/-! ## Loading -/

section

variable {α : Type}

/-- A traversal that keeps the names and takes the texts finds the entries with these texts. -/
theorem mapM_eq_ok_iff_texts {take : String × α → Except Fault (String × String)}
    {text? : α → Option String}
    (takes : ∀ member taken, take member = .ok taken ↔
      (member.1, text? member.2) = (taken.1, some taken.2))
    {members : Members α} {found : Members String} :
    members.mapM take = .ok found ↔ texts text? members = texts some found := by
  simp only [mapM_eq_ok_iff, takes, texts, ← List.forall₂_eq_eq_eq, List.forall₂_map_left_iff,
    List.forall₂_map_right_iff]

theorem takeFormats_eq_ok_iff {format : α → Except (Option String) String}
    {text? : α → Option String}
    (reads : ∀ {entry text}, format entry = .ok text ↔ text? entry = some text)
    {parsed : Except String (Members α)} {found : Members String} :
    takeFormats format parsed = .ok found ↔ parsed.map (texts text?) = .ok (texts some found) := by
  cases parsed with
  | error reason => exact iff_of_false nofun nofun
  | ok members =>
    rw [map_eq_ok_iff]
    simp only [takeFormats, Except.ok.injEq, exists_eq_left']
    refine mapM_eq_ok_iff_texts ?_
    rintro ⟨name, entry⟩ ⟨name', text⟩
    rw [Prod.mk.injEq, ← reads]
    cases format entry <;> simp

end

theorem tomlFormat_eq_ok_iff {item : Toml.Item} {format : String} :
    tomlFormat item = .ok format ↔ tomlText? item = some format := by
  cases item <;> simp [tomlFormat, tomlText?]

theorem jsonFormat_eq_ok_iff {value : Value} {format : String} :
    jsonFormat value = .ok format ↔ jsonText? value = some format := by
  cases value <;> simp [jsonFormat, jsonText?]

/-- The format strings that are found are those that the text declares. -/
theorem formats_eq_ok_iff {found : Members String} :
    formats parsers path text = .ok found ↔ Declares parsers path text (texts some found) := by
  unfold formats
  split
  · next isToml =>
    rw [declares_iff_toml (extension?_eq_some_iff.1 isToml)]
    exact takeFormats_eq_ok_iff tomlFormat_eq_ok_iff
  · next isJson =>
    rw [declares_iff_json (extension?_eq_some_iff.1 isJson)]
    exact takeFormats_eq_ok_iff jsonFormat_eq_ok_iff
  · next notToml notJson =>
    refine iff_of_false nofun fun declares => ?_
    rcases declares.extension with isToml | isJson
    · exact notToml (extension?_eq_some_iff.2 isToml)
    · exact notJson (extension?_eq_some_iff.2 isJson)

/-- A command of a file comes from an entry with a format string that compiles. -/
theorem define_eq_ok_iff {name format : String} {command : Command σ String} :
    Command.define name format = .ok command ↔
      ∃ grammar, compile format = .ok grammar ∧ command = { name, grammar } := by
  rw [Command.define]
  cases compile format <;> simp [Except.map, eq_comm]

/-- **Loading gives the commands that the file holds.** -/
theorem load_eq_ok_iff {commands : List (Command σ String)} :
    load parsers path contents = .ok commands ↔ Holds parsers path contents commands := by
  cases contents with
  | error reason => simp [load, Holds]
  | ok text =>
    refine bind_eq_ok_iff.trans ?_
    simp only [mapM_eq_ok_iff, mapError_eq_ok_iff, define_eq_ok_iff, formats_eq_ok_iff]
    constructor
    · rintro ⟨formats, declares, defined⟩
      exact ⟨text, formats, rfl, declares, defined⟩
    · rintro ⟨_, formats, ⟨⟩, declares, defined⟩
      exact ⟨formats, declares, defined⟩

/-- A file holds its commands and no others. -/
theorem Holds.unique {first second : List (Command σ String)}
    (h : Holds parsers path contents first) (h' : Holds parsers path contents second) :
    first = second :=
  Except.ok.inj ((load_eq_ok_iff.2 h).symm.trans (load_eq_ok_iff.2 h'))

/-! ## Files that cannot be used -/

/-- A file that holds commands can be used. -/
theorem Holds.not_unusable {commands : List (Command σ String)}
    (h : Holds parsers path contents commands) : ¬ Unusable parsers path contents := by
  obtain ⟨text, formats, rfl, declares, defined⟩ := h
  intro unusable
  cases unusable with
  | unsupported notToml notJson =>
    rcases declares.extension with isToml | isJson
    · exact notToml isToml
    · exact notJson isJson
  | malformedToml isToml malformed =>
    rw [declares_iff_toml isToml, malformed] at declares
    cases declares
  | malformedJson isJson malformed =>
    rw [declares_iff_json isJson, malformed] at declares
    cases declares
  | notText declares' member =>
    rw [← declares.unique declares'] at member
    simp [texts] at member
  | @invalidFormat _ name format _ fault declares' member faulty =>
    rw [← declares.unique declares'] at member
    have isFormat : (name, format) ∈ formats := by simpa [texts] using member
    obtain ⟨command, grammar, compiled, -⟩ := exists_of_forall₂ defined isFormat
    rw [faulty] at compiled
    cases compiled

/-- Entries that all have format strings that compile give commands. -/
theorem exists_commands {declared : List (String × Option String)}
    (compiles : ∀ name text?, (name, text?) ∈ declared →
      ∃ format grammar, text? = some format ∧ compile format = .ok grammar) :
    ∃ (formats : List (String × String)) (commands : List (Command σ String)),
      declared = texts some formats ∧
        List.Forall₂ (fun entry command => ∃ grammar, compile entry.2 = .ok grammar ∧
          command = { name := entry.1, grammar }) formats commands := by
  induction declared with
  | nil => exact ⟨[], [], rfl, .nil⟩
  | cons entry declared ih =>
    obtain ⟨name, text?⟩ := entry
    obtain ⟨format, grammar, rfl, compiled⟩ := compiles name text? List.mem_cons_self
    obtain ⟨formats, commands, rfl, defined⟩ :=
      ih fun name text? member => compiles name text? (List.mem_cons_of_mem _ member)
    exact ⟨(name, format) :: formats, { name, grammar } :: commands, rfl,
      .cons ⟨grammar, compiled, rfl⟩ defined⟩

/-- A text that declares entries makes a file with commands, or one that cannot be used. -/
theorem Declares.holds_or_unusable {declared : List (String × Option String)}
    (declares : Declares parsers path text declared) :
    (∃ commands : List (Command σ String), Holds parsers path (.ok text) commands) ∨
      Unusable parsers path (.ok text) := by
  refine or_iff_not_imp_right.2 fun usable => ?_
  -- an entry without a format string, or whose format does not compile, would be a reason
  have compiles : ∀ name text?, (name, text?) ∈ declared →
      ∃ format grammar, text? = some format ∧ compile format = .ok grammar := by
    intro name text? member
    cases text? with
    | none => exact absurd (.notText declares member) usable
    | some format =>
      cases compiled : compile format with
      | error fault => exact absurd (.invalidFormat declares member compiled) usable
      | ok grammar => exact ⟨format, grammar, rfl, compiled⟩
  obtain ⟨formats, commands, rfl, defined⟩ := exists_commands (σ := σ) compiles
  exact ⟨commands, text, formats, rfl, declares, defined⟩

/-- A file holds commands or cannot be used. -/
theorem holds_or_unusable (parsers : Parsers) (path : String) (contents : Except String String) :
    (∃ commands : List (Command σ String), Holds parsers path contents commands) ∨
      Unusable parsers path contents := by
  cases contents with
  | error reason => exact .inr .unreadable
  | ok text =>
    by_cases isToml : HasExtension path "toml"
    · cases parsed : parsers.toml text with
      | error reason => exact .inr (.malformedToml isToml parsed)
      | ok members => exact (Declares.toml isToml parsed).holds_or_unusable
    · by_cases isJson : HasExtension path "json"
      · cases parsed : parsers.json text with
        | error reason => exact .inr (.malformedJson isJson parsed)
        | ok members => exact (Declares.json isJson parsed).holds_or_unusable
      · exact .inr (.unsupported isToml isJson)

/-- **Loading fails exactly for the files that cannot be used.** -/
theorem exists_load_eq_error_iff :
    (∃ fault, (load parsers path contents : Except Fault (List (Command σ String))) =
      .error fault) ↔ Unusable parsers path contents := by
  constructor
  · rintro ⟨fault, failed⟩
    obtain ⟨commands, holds⟩ | unusable := holds_or_unusable (σ := σ) parsers path contents
    · rw [load_eq_ok_iff.2 holds] at failed
      cases failed
    · exact unusable
  · intro unusable
    cases loaded : (load parsers path contents : Except Fault (List (Command σ String))) with
    | error fault => exact ⟨fault, rfl⟩
    | ok commands => exact absurd unusable (load_eq_ok_iff.1 loaded).not_unusable

end Phrasebook.CommandFile
