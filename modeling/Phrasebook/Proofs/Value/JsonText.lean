import Mathlib.Tactic.SplitIfs
import Phrasebook.Proofs.Number.Notation
import Phrasebook.Proofs.Value.TextSpelling
import Phrasebook.Value.Json
import Phrasebook.Value.Printer

/-!
# JSON texts

`JsonText` is the grammar of JSON with the value that a text stands for: blanks between the parts,
commas exactly between items, strings without raw controls. What is printed for a value with one item or
member to a line is a JSON text of the value (`jsonText_prettyAt`).

The grammar is wider than the printer: it has all escapes, blanks anywhere between the parts and empty
brackets with blanks inside. Only numbers are as they are printed, because the digits of a double are
not read back here.
-/

namespace Phrasebook.Value

open Phrasebook.Number

/-! ## The grammar -/

/-- How a character may be written in a JSON string. -/
inductive JsonChar : List Char → Char → Prop
  | plain {c : Char} : c ≠ '"' → c ≠ '\\' → 0x20 ≤ c.toNat → JsonChar [c] c
  | escaped {c : Char} : isJsonEscape c = true → JsonChar ['\\', c] (unescaped c)
  | code {c : Char} (upper : Fin 4 → Bool) :
    c.toNat < 0x10000 → JsonChar ('\\' :: 'u' :: hexDigits upper c.toNat) c
  | codes {c : Char} (upper upper' : Fin 4 → Bool) :
    0x10000 ≤ c.toNat →
    JsonChar ('\\' :: 'u' :: (hexDigits upper (highSurrogate c) ++
      '\\' :: 'u' :: hexDigits upper' (lowSurrogate c))) c

/-- How a text may be written between the quotes of a JSON string. -/
inductive JsonChars : List Char → List Char → Prop
  | nil : JsonChars [] []
  | cons {front back : List Char} {c : Char} {text : List Char} :
    JsonChar front c → JsonChars back text → JsonChars (front ++ back) (c :: text)

/-- A JSON string, with its quotes. -/
inductive JsonString : List Char → String → Prop
  | mk {written content : List Char} :
    JsonChars written content → JsonString ('"' :: (written ++ ['"'])) (String.ofList content)

/-- Blanks of JSON, of which there may be none. -/
def JsonBlanks (gap : List Char) : Prop :=
  ∀ c ∈ gap, isJsonBlank c = true

mutual

/-- JSON texts of a value, without blanks around them. -/
inductive JsonText : List Char → Value → Prop
  | null : JsonText "null".toList .null
  | true : JsonText "true".toList (.bool true)
  | false : JsonText "false".toList (.bool false)
  | int {n : Int} : Numeric (decimalInt n) → JsonText (decimalInt n) (.int n)
  | float {x : Double} : Numeric x.text → JsonText x.text (.float x)
  | string {written : List Char} {text : String} :
    JsonString written text → JsonText written (.string text)
  | emptyArray {gap : List Char} : JsonBlanks gap → JsonText ('[' :: (gap ++ [']'])) (.array [])
  | array {written : List Char} {items : List Value} :
    JsonItems written items → JsonText ('[' :: (written ++ [']'])) (.array items)
  | emptyObject {gap : List Char} : JsonBlanks gap → JsonText ('{' :: (gap ++ ['}'])) (.object [])
  | object {written : List Char} {members : List (String × Value)} :
    JsonMembers written members → JsonText ('{' :: (written ++ ['}'])) (.object members)

/-- The items of an array, of which there is at least one. -/
inductive JsonItems : List Char → List Value → Prop
  | last {front written back : List Char} {value : Value} :
    JsonBlanks front → JsonText written value → JsonBlanks back →
    JsonItems (front ++ (written ++ back)) [value]
  | cons {front written back more : List Char} {value : Value} {items : List Value} :
    JsonBlanks front → JsonText written value → JsonBlanks back → JsonItems more items →
    JsonItems (front ++ (written ++ (back ++ ',' :: more))) (value :: items)

/-- The members of an object, of which there is at least one. -/
inductive JsonMembers : List Char → List (String × Value) → Prop
  | last {front named colon inner written back : List Char} {name : String} {value : Value} :
    JsonBlanks front → JsonString named name → JsonBlanks colon → JsonBlanks inner →
    JsonText written value → JsonBlanks back →
    JsonMembers (front ++ (named ++ (colon ++ ':' :: (inner ++ (written ++ back)))))
      [(name, value)]
  | cons {front named colon inner written back more : List Char} {name : String} {value : Value}
    {members : List (String × Value)} :
    JsonBlanks front → JsonString named name → JsonBlanks colon → JsonBlanks inner →
    JsonText written value → JsonBlanks back → JsonMembers more members →
    JsonMembers (front ++ (named ++ (colon ++ ':' :: (inner ++ (written ++ (back ++ ',' :: more))))))
      ((name, value) :: members)

end

/-- A text that holds one value in JSON and nothing else. -/
def HoldsJson (text : String) (value : Value) : Prop :=
  ∃ front written back, text.toList = front ++ (written ++ back) ∧
    JsonBlanks front ∧ JsonText written value ∧ JsonBlanks back

theorem jsonBlanks_nil : JsonBlanks [] :=
  List.forall_mem_nil _

theorem jsonBlanks_newLine (level : Nat) : JsonBlanks (newLine level) := by
  refine List.forall_mem_cons.2 ⟨rfl, fun c member => ?_⟩
  rw [(List.mem_replicate.1 member).2]
  rfl

/-! ## Strings -/

/-- The digits of a control in its code escape. -/
theorem hexDigits_control : ∀ code < 0x20,
    hexDigits (fun _ => false) code =
      ['0', '0', Nat.digitChar (code / 16), Nat.digitChar (code % 16)] := by
  decide

theorem jsonChar_jsonChar (c : Char) : JsonChar (jsonChar c) c := by
  have escape : ∀ letter, isJsonEscape letter = true → unescaped letter = c →
      JsonChar ['\\', letter] c := by
    rintro letter known rfl
    exact .escaped known
  unfold jsonChar
  split_ifs with quote backslash lineFeed carriageReturn tab backspace formFeed control
  · exact escape '"' rfl quote.symm
  · exact escape '\\' rfl backslash.symm
  · exact escape 'n' rfl lineFeed.symm
  · exact escape 'r' rfl carriageReturn.symm
  · exact escape 't' rfl tab.symm
  · exact escape 'b' rfl backspace.symm
  · exact escape 'f' rfl formFeed.symm
  · rw [← hexDigits_control _ control]
    exact .code _ (by omega)
  · exact .plain quote backslash (Nat.le_of_not_lt control)

theorem jsonString_jsonString (text : String) : JsonString (jsonString text) text := by
  have chars : ∀ content : List Char, JsonChars (content.flatMap jsonChar) content := by
    intro content
    induction content with
    | nil => exact .nil
    | cons c content ih => exact .cons (jsonChar_jsonChar c) ih
  have written := JsonString.mk (chars text.toList)
  rwa [String.ofList_toList] at written

/-! ## Values -/

/-- A value without parts is printed as JSON. -/
theorem jsonText_jsonAtom {value : Value} (noItems : ∀ items, value ≠ .array items)
    (noMembers : ∀ members, value ≠ .object members) : JsonText (jsonAtom value) value := by
  cases value with
  | null => exact .null
  | bool b => cases b with
    | true => exact .true
    | false => exact .false
  | int n => exact .int (numeric_decimalInt n)
  | float x => exact .float x.numeric_text
  | string text => exact .string (jsonString_jsonString text)
  | array items => exact absurd rfl (noItems items)
  | object members => exact absurd rfl (noMembers members)

/-- Items are printed as JSON if each of them is. -/
theorem jsonItems_prettyItems {level : Nat} {item : Value} {items : List Value}
    (texts : ∀ value ∈ item :: items, JsonText (prettyAt level value) value) {front back : List Char}
    (blanks : JsonBlanks front) (blanks' : JsonBlanks back) :
    JsonItems (front ++ (prettyAt level item ++ (prettyItems level items ++ back)))
      (item :: items) := by
  induction items generalizing front item with
  | nil => exact .last blanks (texts _ List.mem_cons_self) blanks'
  | cons next items ih =>
    obtain ⟨first, others⟩ := List.forall_mem_cons.1 texts
    have written := JsonItems.cons blanks first jsonBlanks_nil (ih others (jsonBlanks_newLine level))
    simpa [prettyItems] using written

/-- A blank stands between the colon and the value of a member. -/
theorem jsonBlanks_space : JsonBlanks [' '] :=
  List.forall_mem_singleton.2 rfl

/-- Members are printed as JSON if the value of each of them is. -/
theorem jsonMembers_prettyMembers {level : Nat} {name : String} {value : Value}
    {members : List (String × Value)}
    (texts : ∀ member ∈ (name, value) :: members, JsonText (prettyAt level member.2) member.2)
    {front back : List Char} (blanks : JsonBlanks front) (blanks' : JsonBlanks back) :
    JsonMembers (front ++ (jsonString name ++ ':' :: ' ' :: (prettyAt level value ++
      (prettyMembers level members ++ back)))) ((name, value) :: members) := by
  induction members generalizing front name value with
  | nil =>
    exact .last blanks (jsonString_jsonString name) jsonBlanks_nil jsonBlanks_space
      (texts _ List.mem_cons_self) blanks'
  | cons next members ih =>
    obtain ⟨first, others⟩ := List.forall_mem_cons.1 texts
    have written := JsonMembers.cons blanks (jsonString_jsonString name) jsonBlanks_nil
      jsonBlanks_space first jsonBlanks_nil (ih others (jsonBlanks_newLine level))
    simpa [prettyMembers] using written

theorem sizeOf_lt_of_mem {items : List Value} {value : Value} (h : value ∈ items) :
    sizeOf value < sizeOf (array items) := by
  have bound := List.sizeOf_lt_of_mem h
  rw [array.sizeOf_spec]
  omega

theorem sizeOf_snd_lt_of_mem {members : List (String × Value)} {member : String × Value}
    (h : member ∈ members) : sizeOf member.2 < sizeOf (object members) := by
  have bound := List.sizeOf_lt_of_mem h
  obtain ⟨name, value⟩ := member
  simp only [Prod.mk.sizeOf_spec, object.sizeOf_spec] at bound ⊢
  omega

/-- **What is printed for a value is JSON.** -/
theorem jsonText_prettyAt (level : Nat) (value : Value) : JsonText (prettyAt level value) value := by
  match value with
  | .array [] => exact .emptyArray jsonBlanks_nil
  | .array (item :: items) =>
    have texts : ∀ value ∈ item :: items, JsonText (prettyAt (level + 1) value) value :=
      fun value _ => jsonText_prettyAt (level + 1) value
    have written := JsonText.array
      (jsonItems_prettyItems texts (jsonBlanks_newLine (level + 1)) (jsonBlanks_newLine level))
    simpa [prettyAt] using written
  | .object [] => exact .emptyObject jsonBlanks_nil
  | .object ((name, value) :: members) =>
    have texts : ∀ member ∈ (name, value) :: members,
        JsonText (prettyAt (level + 1) member.2) member.2 :=
      fun member _ => jsonText_prettyAt (level + 1) member.2
    have written := JsonText.object
      (jsonMembers_prettyMembers texts (jsonBlanks_newLine (level + 1)) (jsonBlanks_newLine level))
    simpa [prettyAt] using written
  | .null | .bool _ | .int _ | .float _ | .string _ =>
    exact jsonText_jsonAtom (fun _ => nofun) (fun _ => nofun)
termination_by sizeOf value
decreasing_by
  · exact sizeOf_lt_of_mem ‹_›
  · exact sizeOf_snd_lt_of_mem ‹_›

/-- A printed value, with the line break behind it, is one value in JSON. -/
theorem holdsJson_pretty (value : Value) : HoldsJson (value.pretty ++ "\n") value := by
  refine ⟨[], prettyAt 0 value, ['\n'], ?_, jsonBlanks_nil, jsonText_prettyAt 0 value,
    List.forall_mem_singleton.2 rfl⟩
  simp [pretty]

end Phrasebook.Value
