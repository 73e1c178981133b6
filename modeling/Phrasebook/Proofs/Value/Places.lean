import Phrasebook.Proofs.Value.Locality

/-!
# Places of faults

A fault leaves an end of the text that was being read, which begins at the place of the fault: so says
`remaining_suffix_of_readElement` for values and `remaining_suffix_of_readAll` for whole texts. The number of
characters in front of the place is therefore no greater than the length of the text, and grows by exactly
what is put in front. Blanks and complete comments in front change nothing else, whatever stands behind
them, well-formed or not: `read_behind_trivia`.
-/

namespace Phrasebook.Value

open Phrasebook.Text

/-! ## Comments, escapes and quotations -/

theorem remaining_suffix_of_skipTrivia {text : List Char} {fault : Fault}
    (h : skipTrivia text = .error fault) : fault.remaining <:+ text := by
  revert h
  refine skipTrivia.induct
    (fun text => skipTrivia text = .error fault → fault.remaining <:+ text)
    (fun text => skipAfterSlash text = .error fault → fault.remaining <:+ '/' :: text)
    (fun opening last text => text <:+ opening →
      skipBlockComment opening last text = .error fault → fault.remaining <:+ opening)
    (fun text => skipLineComment text = .error fault → fault.remaining <:+ text)
    ?nil ?blank ?hash ?slash ?stop ?slashNil ?slashLine ?slashBlock ?slashStop ?blockNil
    ?blockEnd ?blockStep ?lineNil ?lineEnd ?lineStep text
  case nil => intro h; cases h
  case blank =>
    intro c text blank ih h
    rw [skipTrivia, if_pos blank] at h
    exact (ih h).trans (List.suffix_cons c text)
  case hash =>
    intro text blank ih h
    rw [skipTrivia, if_neg blank, if_pos rfl] at h
    exact (ih h).trans (List.suffix_cons '#' text)
  case slash =>
    intro text blank noHash ih h
    rw [skipTrivia, if_neg blank, if_neg noHash, if_pos rfl] at h
    exact ih h
  case stop =>
    intro c text blank noHash noSlash h
    rw [skipTrivia, if_neg blank, if_neg noHash, if_neg noSlash] at h
    cases h
  case slashNil => intro h; cases h
  case slashLine =>
    intro text ih h
    rw [skipAfterSlash, if_pos rfl] at h
    exact (ih h).trans (List.suffix_append ['/', '/'] text)
  case slashBlock =>
    intro text noSlash ih h
    rw [skipAfterSlash, if_neg noSlash, if_pos rfl] at h
    exact ih (List.suffix_append ['/', '*'] text) h
  case slashStop =>
    intro c text noSlash noStar h
    rw [skipAfterSlash, if_neg noSlash, if_neg noStar] at h
    cases h
  case blockNil =>
    intro opening last _ h
    cases h
    exact List.suffix_refl opening
  case blockEnd =>
    intro opening last c text closes ih inOpening h
    rw [skipBlockComment, if_pos closes] at h
    exact (ih h).trans ((List.suffix_cons c text).trans inOpening)
  case blockStep =>
    intro opening last c text stays ih inOpening h
    rw [skipBlockComment, if_neg stays] at h
    exact ih ((List.suffix_cons c text).trans inOpening) h
  case lineNil => intro h; cases h
  case lineEnd =>
    intro c text ends ih h
    rw [skipLineComment, if_pos ends] at h
    exact (ih h).trans (List.suffix_cons c text)
  case lineStep =>
    intro c text stays ih h
    rw [skipLineComment, if_neg stays] at h
    exact (ih h).trans (List.suffix_cons c text)

theorem remaining_suffix_of_readHex {count value : Nat} {text : List Char} {fault : Fault}
    (h : readHex count value text = .error fault) : fault.remaining <:+ text := by
  fun_induction readHex count value text with
  | case1 => cases h
  | case2 =>
    cases h
    exact List.suffix_refl []
  | case3 count value c text d _ ih => exact (ih h).trans (List.suffix_cons c text)
  | case4 count value c text =>
    cases h
    exact List.suffix_cons c text

/-- What is left behind hexadecimal digits is an end of the text. -/
theorem suffix_of_readHex {count start value : Nat} {text rest : List Char}
    (h : readHex count start text = .ok (value, rest)) : rest <:+ text := by
  obtain ⟨taken, rfl, -⟩ := takes_of_readHex h
  exact List.suffix_append taken rest

theorem remaining_suffix_of_readLowSurrogate {high : Nat} {text : List Char} {fault : Fault}
    (h : readLowSurrogate high text = .error fault) : fault.remaining <:+ text := by
  unfold readLowSurrogate at h
  split at h
  · next c d text =>
    have inText : text <:+ c :: d :: text := List.suffix_append [c, d] text
    split at h
    · split at h
      · next read =>
        cases h
        exact (remaining_suffix_of_readHex read).trans inText
      · next read =>
        split at h
        · cases h
        · cases h
          exact (suffix_of_readHex read).trans inText
    · cases h
      exact List.suffix_refl _
  · cases h
    exact List.suffix_refl _

theorem remaining_suffix_of_readCodeEscape {text : List Char} {fault : Fault}
    (h : readCodeEscape text = .error fault) : fault.remaining <:+ text := by
  unfold readCodeEscape at h
  split at h
  · next read =>
    cases h
    exact remaining_suffix_of_readHex read
  · next read =>
    have inText := suffix_of_readHex read
    split at h
    · exact (remaining_suffix_of_readLowSurrogate h).trans inText
    · split at h
      · cases h
        exact inText
      · cases h

theorem remaining_suffix_of_readEscape {text : List Char} {fault : Fault}
    (h : readEscape text = .error fault) : fault.remaining <:+ text := by
  cases text with
  | nil =>
    cases h
    exact List.suffix_refl []
  | cons c text =>
    rw [readEscape] at h
    split at h
    · exact (remaining_suffix_of_readCodeEscape h).trans (List.suffix_cons c text)
    · cases h

theorem suffix_of_readEscape {text rest : List Char} {c : Char}
    (h : readEscape text = .ok (c, rest)) : rest <:+ text := by
  obtain ⟨taken, rfl, -⟩ := takes_of_readEscape h
  exact List.suffix_append taken rest

/-- A quotation that is not closed is a fault where it began. -/
theorem remaining_suffix_of_readQuoted {quote : Char} {opening text : List Char} {fault : Fault}
    (inOpening : text <:+ opening) (h : readQuoted quote opening text = .error fault) :
    fault.remaining <:+ opening := by
  fun_induction readQuoted quote opening text with
  | case1 =>
    cases h
    exact List.suffix_refl opening
  | case2 => cases h
  | case3 tail _ escape =>
    cases h
    have inTail := remaining_suffix_of_readEscape escape
    exact inTail.trans ((List.suffix_cons '\\' tail).trans inOpening)
  | case4 tail meaning rest escape _ _ later _ ih =>
    cases h
    have inTail := suffix_of_readEscape escape
    exact ih (inTail.trans ((List.suffix_cons '\\' tail).trans inOpening)) later
  | case5 => cases h
  | case6 c tail _ _ _ later ih =>
    cases h
    exact ih ((List.suffix_cons c tail).trans inOpening) later
  | case7 => cases h

theorem suffix_of_readQuoted {quote : Char} {opening text content rest : List Char}
    (h : readQuoted quote opening text = .ok (content, rest)) : rest <:+ text := by
  obtain ⟨taken, rfl, -⟩ := takes_of_readQuoted h
  exact List.suffix_append taken rest

theorem remaining_suffix_of_readNameChars {text : List Char} {fault : Fault}
    (h : readNameChars text = .error fault) : fault.remaining <:+ text := by
  fun_induction readNameChars text with
  | case1 => cases h
  | case2 => cases h
  | case3 =>
    cases h
    exact List.suffix_refl _
  | case4 tail _ escape =>
    cases h
    exact (remaining_suffix_of_readEscape escape).trans (List.suffix_cons '\\' tail)
  | case5 tail meaning rest escape _ _ later _ _ ih =>
    cases h
    exact ((ih later).trans (suffix_of_readEscape escape)).trans (List.suffix_cons '\\' tail)
  | case6 => cases h
  | case7 c tail _ _ _ _ later ih =>
    cases h
    exact (ih later).trans (List.suffix_cons c tail)
  | case8 => cases h

theorem suffix_of_readNameChars {text name rest : List Char}
    (h : readNameChars text = .ok (name, rest)) : rest <:+ text := by
  cases rest with
  | nil => exact List.nil_suffix
  | cons c rest =>
    obtain ⟨rfl, taken, rfl, -⟩ := takes_of_readNameChars h
    exact List.suffix_append taken _

theorem remaining_suffix_of_readName {text : List Char} {fault : Fault}
    (h : readName text = .error fault) : fault.remaining <:+ text := by
  cases text with
  | nil =>
    cases h
    exact List.suffix_refl []
  | cons c tail =>
    rw [readName] at h
    split at h
    · exact remaining_suffix_of_readQuoted (List.suffix_cons c tail) h
    · split at h
      · next read =>
        cases h
        exact remaining_suffix_of_readNameChars read
      · next read =>
        split at h
        · cases h
          exact suffix_of_readNameChars read
        · cases h

theorem suffix_of_readName {text name rest : List Char} (h : readName text = .ok (name, rest)) :
    rest <:+ text := by
  cases text with
  | nil => cases h
  | cons c tail =>
    rw [readName] at h
    split at h
    · exact (suffix_of_readQuoted h).trans (List.suffix_cons c tail)
    · split at h
      · cases h
      · next read =>
        split at h
        · cases h
        · cases h
          exact suffix_of_readNameChars read

/-! ## Values -/

/-- What is left behind trivia is an end of the text. -/
theorem suffix_of_skipTrivia {text rest : List Char} (h : skipTrivia text = .ok rest) :
    rest <:+ text := by
  cases rest with
  | nil => exact List.nil_suffix
  | cons c tail =>
    obtain ⟨trivia, -, rfl, -⟩ := trivia_of_skipTrivia h
    exact List.suffix_append trivia _

theorem suffix_of_readElement {inside : Bool} {text rest : List Char} {value : Value}
    (h : readElement inside text = .ok (value, rest)) : rest <:+ text := by
  obtain ⟨trivia, c, body, -, -, rfl, -⟩ := takes_of_readElement h
  exact List.suffix_append _ rest

/-- A value leaves an end of its text if the arrays and objects that are shorter do. -/
theorem remaining_suffix_of_parts {inside : Bool} {text : List Char} {fault : Fault}
    (items : ∀ {shorter opening fault}, shorter.length < text.length → shorter <:+ opening →
      readItems opening shorter = .error fault → fault.remaining <:+ opening)
    (members : ∀ {shorter opening fault}, shorter.length < text.length → shorter <:+ opening →
      readMembers opening shorter = .error fault → fault.remaining <:+ opening)
    (h : readElement inside text = .error fault) : fault.remaining <:+ text := by
  rw [readElement_eq] at h
  cases skipped : skipTrivia text with
  | error fault' =>
    rw [skipped] at h
    cases h
    exact remaining_suffix_of_skipTrivia skipped
  | ok solid =>
    rw [skipped] at h
    cases solid with
    | nil =>
      cases h
      exact List.nil_suffix
    | cons c tail =>
      have inText := suffix_of_skipTrivia skipped
      have inSolid : tail <:+ c :: tail := List.suffix_cons c tail
      have shorter : tail.length < text.length := inText.length_le
      simp only at h
      split at h
      · split at h
        · next read =>
          cases h
          exact (remaining_suffix_of_readQuoted inSolid read).trans inText
        · cases h
      · split at h
        · split at h
          · next read =>
            cases h
            exact (members shorter inSolid read).trans inText
          · cases h
        · split at h
          · split at h
            · next read =>
              cases h
              exact (items shorter inSolid read).trans inText
            · cases h
          · split at h
            · cases h
              exact inText
            · cases h

/-- The items of an array leave an end of the text from its bracket on if values and shorter arrays do. -/
theorem remaining_suffix_of_items {opening text : List Char} {fault : Fault}
    (elements : ∀ {shorter fault}, shorter.length ≤ text.length →
      readElement true shorter = .error fault → fault.remaining <:+ shorter)
    (items : ∀ {shorter opening fault}, shorter.length < text.length → shorter <:+ opening →
      readItems opening shorter = .error fault → fault.remaining <:+ opening)
    (inOpening : text <:+ opening) (h : readItems opening text = .error fault) :
    fault.remaining <:+ opening := by
  rw [readItems_eq] at h
  cases skipped : skipTrivia text with
  | error fault' =>
    rw [skipped] at h
    cases h
    exact (remaining_suffix_of_skipTrivia skipped).trans inOpening
  | ok solid =>
    rw [skipped] at h
    cases solid with
    | nil =>
      cases h
      exact List.suffix_refl opening
    | cons c tail =>
      have inText := suffix_of_skipTrivia skipped
      have shorter : tail.length < text.length := inText.length_le
      simp only at h
      split at h
      · cases h
      · split at h
        · exact items shorter
            (((List.suffix_cons c tail).trans inText).trans inOpening) h
        · split at h
          · next read =>
            cases h
            exact ((elements inText.length_le read).trans inText).trans inOpening
          · next value rest read =>
            have behind := (suffix_of_readElement read).trans inText
            have closer : rest.length < text.length :=
              Nat.lt_of_lt_of_le (length_lt_of_readElement read) inText.length_le
            split at h
            · next later =>
              cases h
              exact items closer (behind.trans inOpening) later
            · cases h

/-- The members of an object leave an end of the text from its brace on if values and shorter objects
do. -/
theorem remaining_suffix_of_members {opening text : List Char} {fault : Fault}
    (elements : ∀ {shorter fault}, shorter.length ≤ text.length →
      readElement true shorter = .error fault → fault.remaining <:+ shorter)
    (members : ∀ {shorter opening fault}, shorter.length < text.length → shorter <:+ opening →
      readMembers opening shorter = .error fault → fault.remaining <:+ opening)
    (inOpening : text <:+ opening) (h : readMembers opening text = .error fault) :
    fault.remaining <:+ opening := by
  rw [readMembers_eq] at h
  cases skipped : skipTrivia text with
  | error fault' =>
    rw [skipped] at h
    cases h
    exact (remaining_suffix_of_skipTrivia skipped).trans inOpening
  | ok solid =>
    rw [skipped] at h
    cases solid with
    | nil =>
      cases h
      exact List.suffix_refl opening
    | cons c tail =>
      have inText := suffix_of_skipTrivia skipped
      have shorter : tail.length < text.length := inText.length_le
      simp only at h
      split at h
      · cases h
      · split at h
        · exact members shorter
            (((List.suffix_cons c tail).trans inText).trans inOpening) h
        · split at h
          · next named =>
            cases h
            exact ((remaining_suffix_of_readName named).trans inText).trans inOpening
          · next name behind named =>
            have behindName := (suffix_of_readName named).trans inText
            split at h
            · next colon =>
              cases h
              exact ((remaining_suffix_of_skipTrivia colon).trans behindName).trans inOpening
            · cases h
              exact List.nil_suffix
            · next d rest colon =>
              have fromColon := (suffix_of_skipTrivia colon).trans behindName
              have behindColon := (List.suffix_cons d rest).trans fromColon
              split at h
              · split at h
                · next read =>
                  cases h
                  exact ((elements behindColon.length_le read).trans behindColon).trans inOpening
                · next value behind read =>
                  have behindValue := (suffix_of_readElement read).trans behindColon
                  have closer : behind.length < text.length :=
                    Nat.lt_of_lt_of_le (length_lt_of_readElement read) behindColon.length_le
                  split at h
                  · next later =>
                    cases h
                    exact members closer (behindValue.trans inOpening) later
                  · cases h
              · cases h
                exact behindColon.trans inOpening

/-- Values, items and members up to a length, from those that are shorter. -/
theorem remaining_suffix_of_length_le (length : Nat) :
    (∀ {inside text fault}, text.length ≤ length →
      readElement inside text = .error fault → fault.remaining <:+ text) ∧
    (∀ {text opening fault}, text.length ≤ length → text <:+ opening →
      readItems opening text = .error fault → fault.remaining <:+ opening) ∧
    ∀ {text opening fault}, text.length ≤ length → text <:+ opening →
      readMembers opening text = .error fault → fault.remaining <:+ opening := by
  induction length using Nat.strongRecOn with
  | ind length ih =>
    have items : ∀ {bound shorter opening fault}, bound ≤ length →
        shorter.length < bound → shorter <:+ opening →
        readItems opening shorter = .error fault → fault.remaining <:+ opening :=
      fun within shorter => (ih _ (Nat.lt_of_lt_of_le shorter within)).2.1 (Nat.le_refl _)
    have members : ∀ {bound shorter opening fault}, bound ≤ length →
        shorter.length < bound → shorter <:+ opening →
        readMembers opening shorter = .error fault → fault.remaining <:+ opening :=
      fun within shorter => (ih _ (Nat.lt_of_lt_of_le shorter within)).2.2 (Nat.le_refl _)
    have elements : ∀ {inside text fault}, text.length ≤ length →
        readElement inside text = .error fault → fault.remaining <:+ text :=
      fun bound h => remaining_suffix_of_parts (items bound) (members bound) h
    refine ⟨elements, fun bound inOpening h => ?_, fun bound inOpening h => ?_⟩
    · exact remaining_suffix_of_items (fun shorter => elements (Nat.le_trans shorter bound))
        (items bound) inOpening h
    · exact remaining_suffix_of_members (fun shorter => elements (Nat.le_trans shorter bound))
        (members bound) inOpening h

/-- A text that spells no value is left at a place in it. -/
theorem remaining_suffix_of_readElement {inside : Bool} {text : List Char} {fault : Fault}
    (h : readElement inside text = .error fault) : fault.remaining <:+ text :=
  (remaining_suffix_of_length_le text.length).1 (Nat.le_refl _) h

theorem remaining_suffix_of_readAll {text : List Char} {fault : Fault}
    (h : readAll text = .error fault) : fault.remaining <:+ text := by
  unfold readAll at h
  split at h
  · next read =>
    cases h
    exact remaining_suffix_of_readElement read
  · next read =>
    have behind := suffix_of_readElement read
    split at h
    · next skipped =>
      cases h
      exact (remaining_suffix_of_skipTrivia skipped).trans behind
    · cases h
    · next skipped =>
      cases h
      exact (suffix_of_skipTrivia skipped).trans behind

/-! ## Trivia in front of a text -/

/-- The same error behind `count` more characters. -/
def SyntaxError.behind (count : Nat) (e : SyntaxError) : SyntaxError :=
  { e with offset := e.offset + count }

/-- A place in a text is as many characters further in a longer one as there are in front. -/
theorem Fault.within_append {fault : Fault} {text : List Char} (h : fault.remaining <:+ text)
    (front : List Char) :
    fault.within (front ++ text) = (fault.within text).behind front.length := by
  have bound := h.length_le
  simp only [Fault.within, SyntaxError.behind, List.length_append, SyntaxError.mk.injEq, true_and]
  omega

theorem Trivia.readAll_append {trivia : List Char} (h : Trivia trivia) (text : List Char) :
    readAll (trivia ++ text) = readAll text := by
  rw [readAll, readAll, h.readElement_append]

/-- **Trivia in front.** Blanks and complete comments in front of a text do not change what it spells, and
count for the length of its first value. Where it is malformed the cause stays the same, and its place is
as many characters further. -/
theorem read_behind_trivia {trivia : String} (h : Trivia trivia.toList) (text : String) :
    read (trivia ++ text) = (read text).mapError (.behind trivia.length) ∧
      elementLength (trivia ++ text) =
        ((elementLength text).map (· + trivia.length)).mapError (.behind trivia.length) := by
  rw [read, read, elementLength, elementLength, String.toList_append, h.readAll_append,
    h.readElement_append, ← String.length_toList]
  constructor
  · cases all : readAll text.toList with
    | ok value => rfl
    | error fault =>
      exact congrArg Except.error (Fault.within_append (remaining_suffix_of_readAll all) _)
  · cases first : readElement false text.toList with
    | ok result =>
      obtain ⟨value, rest⟩ := result
      have bound := (suffix_of_readElement first).length_le
      have longer : (trivia.toList ++ text.toList).length - rest.length =
          text.toList.length - rest.length + trivia.toList.length := by
        rw [List.length_append]
        omega
      exact congrArg Except.ok longer
    | error fault =>
      exact congrArg Except.error (Fault.within_append (remaining_suffix_of_readElement first) _)

/-- A block comment whose star and slash do not close it, behind a line comment that looks like one, and
in front of a quotation with something behind it. -/
theorem read_behind_trivia_comments :
    Trivia "#/*\n/*/ */".toList ∧
      read "'a' b" = .error ⟨.trailingCharacter 'b', 4⟩ ∧ elementLength "'a' b" = .ok 3 ∧
      read ("#/*\n/*/ */" ++ "'a' b") = .error ⟨.trailingCharacter 'b', 14⟩ ∧
      elementLength ("#/*\n/*/ */" ++ "'a' b") = .ok 13 := by
  have comments : Trivia "#/*\n/*/ */".toList :=
    @Trivia.hash "/*".toList "/*/ */".toList '\n' (by simp [isLineBreak]) (by decide)
      (@Trivia.block "/ ".toList [] (by decide) .nil)
  have first : readElement false "'a' b".toList = .ok (.string "a", " b".toList) := by
    simp [readElement_eq, skipTrivia, isBlank, readQuoted_cons]
  have whole : read "'a' b" = .error ⟨.trailingCharacter 'b', 4⟩ := by
    rw [read, readAll, first]
    rfl
  have measured : elementLength "'a' b" = .ok 3 := by
    rw [elementLength, first]
    rfl
  obtain ⟨wholeBehind, measuredBehind⟩ := read_behind_trivia comments "'a' b"
  refine ⟨comments, whole, measured, ?_, ?_⟩
  · rw [wholeBehind, whole]
    rfl
  · rw [measuredBehind, measured]
    rfl

end Phrasebook.Value
