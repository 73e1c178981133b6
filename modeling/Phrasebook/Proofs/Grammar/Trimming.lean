import Phrasebook.Proofs.Batch.Lines
import Phrasebook.Proofs.Grammar.LineBreaks
import Phrasebook.Proofs.Input.Layout

/-!
# What trimming leaves

`trimUnescaped` takes bare blanks off both sides of a text and cuts through no escape, however many
backslashes stand in front of the blanks at the end. What it leaves holds the calls of the text
(`readCalls_trimUnescaped_iff`): a token that ends in a blank ends with an escape, so it does not reach into the
bare blanks behind the text. `trimUnescaped_of_paired` puts the statements together.
-/

namespace Phrasebook

open Phrasebook.Text Phrasebook.Value Phrasebook.Input

/-! ## Blanks around calls -/

namespace Input

/-- Separators behind lexemes make no further call. -/
theorem calls_append_separators (found : List Lexeme) (gap : List Char) :
    calls (found ++ separators gap) = calls found := by
  rw [separators]
  generalize gap.countP separates = count
  cases count with
  | zero => rw [List.replicate_zero, List.append_nil]
  | succ count =>
    have behind : calls (List.replicate count Lexeme.separator) = [] := by
      rw [← List.append_nil (List.replicate count Lexeme.separator), calls_replicate_append]
      rfl
    rw [List.replicate_succ, calls_separator, behind, List.append_nil]

theorem isGap_of_blank {blanks : List Char} (h : ∀ c ∈ blanks, isBlank c = true) : IsGap blanks :=
  fun c member => .inl (h c member)

/-- Blanks in front of a text belong to none of its calls. -/
theorem readCalls_blanks_append {blanks : List Char} (h : ∀ c ∈ blanks, isBlank c = true)
    (text : List Char) : readCalls (blanks ++ text) = readCalls text := by
  rw [readCalls, (isGap_of_blank h).lexemes_append, readCalls]
  cases lexemes text with
  | error fault => rfl
  | ok found => exact congrArg Except.ok (calls_replicate_append _ found)

/-- Nor do blanks behind a text without comments. -/
theorem Lexes.readCalls_append_blanks {text : List Char} {found : List Lexeme} (h : Lexes text found)
    (noHash : '#' ∉ text) (noSlash : '/' ∉ text) {blanks : List Char}
    (inBlanks : ∀ c ∈ blanks, isBlank c = true) :
    readCalls (text ++ blanks) = .ok (calls found) := by
  have stops : Stops endsWord blanks := by
    intro c first
    rw [endsWord, inBlanks c (List.mem_of_mem_head? first), Bool.or_true]
  have alone : lexemes blanks = .ok (separators blanks) := by
    have whole := (isGap_of_blank inBlanks).lexemes_append []
    rw [List.append_nil, lexemes_nil] at whole
    rw [whole]
    exact congrArg Except.ok (List.append_nil _)
  rw [readCalls, h.lexemes_append noHash noSlash stops, alone]
  exact congrArg Except.ok (calls_append_separators found blanks)

end Input

/-! ## Text in front of blanks -/

/-- A neat text does not end with bare blanks. -/
theorem Neat.blanks_eq_nil {core blanks : List Char} (neat : Neat (core ++ blanks))
    (paired : Paired core) (inBlanks : ∀ c ∈ blanks, isBlank c = true) : blanks = [] := by
  rcases List.eq_nil_or_concat blanks with empty | ⟨inner, c, rfl⟩
  · exact empty
  · have blank := inBlanks c (by simp)
    have isFront : Paired (core ++ inner) :=
      paired.append (paired_of_blank fun d member => inBlanks d (by simp [member]))
    have bare := neat.2 (core ++ inner) c (by simp) isFront
    rw [blank] at bare
    cases bare

/-- If a text without comments is divided into lexemes, what stands in front of bare blanks is. -/
theorem exists_lexes_of_append_blanks {text : List Char} {found : List Lexeme} (h : Lexes text found)
    {core blanks : List Char} (equal : text = core ++ blanks) (isCore : Paired core)
    (inBlanks : ∀ c ∈ blanks, isBlank c = true) (noHash : '#' ∉ text) (noSlash : '/' ∉ text) :
    ∃ inCore, Lexes core inCore := by
  induction h generalizing core with
  | nil =>
    obtain ⟨rfl, rfl⟩ := List.append_eq_nil_iff.1 equal.symm
    exact ⟨[], .nil⟩
  | @separator c text more separates _ ih =>
    rw [List.mem_cons, not_or] at noHash noSlash
    cases core with
    | nil => exact ⟨[], .nil⟩
    | cons d core =>
      obtain ⟨rfl, rest⟩ := List.cons.inj equal
      have later := (paired_cons (plain_of_separates separates)).1 isCore
      obtain ⟨inCore, lexes⟩ := ih rest later noHash.2 noSlash.2
      exact ⟨.separator :: inCore, .separator separates lexes⟩
  | @blank c text more blank stays _ ih =>
    rw [List.mem_cons, not_or] at noHash noSlash
    cases core with
    | nil => exact ⟨[], .nil⟩
    | cons d core =>
      obtain ⟨rfl, rest⟩ := List.cons.inj equal
      have later := (paired_cons (plain_of_isBlank blank)).1 isCore
      obtain ⟨inCore, lexes⟩ := ih rest later noHash.2 noSlash.2
      exact ⟨inCore, .blank blank stays lexes⟩
  | @token before token text more stands reaches stops _ ih =>
    rw [List.mem_append, not_or] at noHash noSlash
    have whole : Paired (token ++ text) := equal ▸ isCore.append (paired_of_blank inBlanks)
    have isToken : Neat token := by
      rcases reaches with ⟨-, closed⟩ | ⟨hash | slash, -⟩
      · exact neat_of_closed closed whole
      · exact absurd hash noHash.1
      · exact absurd slash noSlash.1
    rcases List.append_eq_append_iff.1 equal with ⟨inner, rfl, rest⟩ | ⟨inner, inToken, rfl⟩
    · have later := isToken.1.of_append isCore
      obtain ⟨inCore, lexes⟩ := ih rest later noHash.2 noSlash.2
      have ends : Stops before inner := by
        intro c first
        refine stops c ?_
        rw [rest, List.head?_append, Option.mem_def.1 first]
        rfl
      exact ⟨.token token :: inCore, .token stands reaches ends lexes⟩
    · -- Were there blanks at the end of the token, they would be bare, as the text in front is paired.
      rw [inToken] at isToken
      have none := isToken.blanks_eq_nil isCore fun c member =>
        inBlanks c (List.mem_append_left _ member)
      rw [none, List.append_nil] at inToken
      exact ⟨[.token token], inToken ▸ lexes_of_lexemes stands.lexemes_eq⟩

/-- The calls of a text without comments are those that trimming leaves. -/
theorem readCalls_trimUnescaped_iff {text : List Char} (h : Paired text) (noHash : '#' ∉ text)
    (noSlash : '/' ∉ text) {found : List (List (List Char))} :
    readCalls (trimUnescaped text) = .ok found ↔ readCalls text = .ok found := by
  obtain ⟨front, back, equal, inFront, inBack, -, isCore, -⟩ := exists_trimUnescaped h
  generalize trimUnescaped text = core at equal isCore
  have same : readCalls text = readCalls (core ++ back) := by
    rw [equal, readCalls_blanks_append inFront]
  have notIn : ∀ {c}, c ∉ text → c ∉ core ++ back := fun notIn member =>
    notIn (equal ▸ List.mem_append_right front member)
  have readAlike : ∀ {inCore}, Lexes core inCore → readCalls (core ++ back) = readCalls core := by
    intro inCore lexes
    have notInCore : ∀ {c}, c ∉ text → c ∉ core := fun notInText member =>
      notIn notInText (List.mem_append_left back member)
    rw [lexes.readCalls_append_blanks (notInCore noHash) (notInCore noSlash) inBack, readCalls,
      lexes.lexemes_eq]
    rfl
  rw [same]
  constructor
  · intro read
    cases divided : lexemes core with
    | error fault =>
      rw [readCalls, divided] at read
      cases read
    | ok inCore => rw [readAlike (lexes_of_lexemes divided), read]
  · intro read
    cases divided : lexemes (core ++ back) with
    | error fault =>
      rw [readCalls, divided] at read
      cases read
    | ok inText =>
      obtain ⟨inCore, lexes⟩ := exists_lexes_of_append_blanks (lexes_of_lexemes divided) rfl isCore
        inBack (notIn noHash) (notIn noSlash)
      rw [← readAlike lexes, read]

theorem tokenize_ofList_eq_ok_iff {text : List Char} {found : List (List String)} :
    tokenize (String.ofList text) = .ok found ↔
      ∃ calls, readCalls text = .ok calls ∧ calls.map (·.map String.ofList) = found := by
  rw [tokenize, String.toList_ofList]
  cases readCalls text with
  | error fault => simp
  | ok calls => simp

/-- **Trimming.** Of a text in which every backslash has a character behind it, trimming takes bare blanks off
both sides, and no more: the rest neither begins nor ends with a bare blank, and ends in no half escape.
To trim it again changes nothing, and it holds the same calls if the text holds no comment. -/
theorem trimUnescaped_of_paired {text : List Char} (h : Paired text) :
    (∃ front back, text = front ++ (trimUnescaped text ++ back) ∧
      (∀ c ∈ front, isBlank c = true) ∧ ∀ c ∈ back, isBlank c = true) ∧
    Paired (trimUnescaped text) ∧
    (∀ c rest, trimUnescaped text = c :: rest → isBlank c = false) ∧
    (∀ front c, trimUnescaped text = front ++ [c] → Paired front → isBlank c = false) ∧
    trimUnescaped (trimUnescaped text) = trimUnescaped text ∧
    ('#' ∉ text → '/' ∉ text → ∀ found,
      tokenize (String.ofList (trimUnescaped text)) = .ok found ↔
        tokenize (String.ofList text) = .ok found) := by
  obtain ⟨front, back, equal, inFront, inBack, starts, neat⟩ := exists_trimUnescaped h
  refine ⟨⟨front, back, equal, inFront, inBack⟩, neat.1, ?_, neat.2, trimUnescaped_self starts neat, ?_⟩
  · intro c rest first
    exact starts c (by rw [first]; rfl)
  · intro noHash noSlash found
    simp only [tokenize_ofList_eq_ok_iff, readCalls_trimUnescaped_iff h noHash noSlash]

/-- Three backslashes in front of the blanks at the end: the last one keeps the first blank, which belongs to
the last word. -/
theorem trimUnescaped_of_paired_backslashes :
    Paired " say 'a ';b\\\\\\  \n".toList ∧
      trimUnescaped " say 'a ';b\\\\\\  \n".toList = "say 'a ';b\\\\\\ ".toList ∧
      trimUnescaped "say 'a ';b\\\\\\ ".toList = "say 'a ';b\\\\\\ ".toList ∧
      tokenize " say 'a ';b\\\\\\  \n" = .ok [["say", "'a '"], ["b\\\\\\ "]] ∧
      tokenize "say 'a ';b\\\\\\ " = .ok [["say", "'a '"], ["b\\\\\\ "]] := by
  have paired : Paired " say 'a ';b\\\\\\  \n".toList := paired_of_getLast? rfl (by decide)
  have trimmed : trimUnescaped " say 'a ';b\\\\\\  \n".toList = "say 'a ';b\\\\\\ ".toList := by decide
  obtain ⟨-, -, -, -, again, alike⟩ := trimUnescaped_of_paired paired
  have whole : tokenize " say 'a ';b\\\\\\  \n" = .ok [["say", "'a '"], ["b\\\\\\ "]] := by
    simp [tokenize, readCalls, lexemes_cons, lexemes_nil, startsValue, separates, isLineBreak, isBlank,
      readWord, endsWord, readElement_eq, skipTrivia, readQuoted_cons, Except.map]
    decide
  refine ⟨paired, trimmed, ?_, whole, ?_⟩
  · rw [← trimmed, again]
  · have same := (alike (by decide) (by decide) _).2 whole
    rwa [trimmed] at same

end Phrasebook
