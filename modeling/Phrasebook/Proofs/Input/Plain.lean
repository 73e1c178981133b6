import Phrasebook.Proofs.Input.Tokens

/-!
# Plain inputs

An input without backslashes, quotes, brackets, colons and comments is read by splitting it twice:
at semicolons and line breaks into calls, and each of these at blanks into words. Pieces without a
word are no calls. `plainCalls` splits in this way, with the splitting of the library and nothing of
the lexer, and `tokenize_plain` says that plain inputs hold these calls, so that none of them is
malformed.

The lexer goes from token to token instead of from call to call; `splitCalls_lexemes` follows it
through the text and says that the calls behind each token are the pieces of the text behind it.
-/

namespace Phrasebook.Input

open Phrasebook.Text Phrasebook.Value

/-- The characters that a plain input does without. -/
def reserved : List Char :=
  ['\\', '"', '\'', '{', '}', '[', ']', ':', '/', '#']

/-- The characters at which an input is cut into calls. -/
def callEnds : List Char :=
  ['\n', '\r', '\u2028', '\u2029', ';']

/-- The words of a text: what stands between blanks. -/
def words (text : List Char) : List (List Char) :=
  (text.splitOnP isBlank).filter fun word => !word.isEmpty

/-- The words of the pieces of a text, piece by piece, without the pieces that hold none. -/
def plainCalls (text : List Char) : List (List (List Char)) :=
  ((text.splitOnP fun c => c ∈ callEnds).map words).filter fun call => !call.isEmpty

/-! ## Characters -/

theorem separates_eq (c : Char) : separates c = decide (c ∈ callEnds) := by
  rw [Bool.eq_iff_iff]
  simp only [separates, isLineBreak, callEnds, Bool.or_eq_true, beq_iff_eq, decide_eq_true_eq,
    List.mem_cons, List.not_mem_nil, or_false, or_assoc]

theorem notMem_reserved_iff {c : Char} : c ∉ reserved ↔ c ≠ '\\' ∧ startsValue c = false := by
  simp only [reserved, startsValue, List.mem_cons, List.not_mem_nil, or_false, not_or,
    Bool.or_eq_false_iff, decide_eq_false_iff_not, and_assoc, ne_eq]

/-- A text without reserved characters can always be read as a word and what is behind it. -/
theorem exists_readWord {text : List Char} (plain : ∀ c ∈ text, c ∉ reserved) :
    ∃ word rest, readWord text = .ok (word, rest) := by
  induction text with
  | nil => exact ⟨[], [], rfl⟩
  | cons c text ih =>
    obtain ⟨first, later⟩ := List.forall_mem_cons.1 plain
    have noEscape := (notMem_reserved_iff.1 first).1
    obtain ⟨word, rest, read⟩ := ih later
    cases ends : endsWord c with
    | true => exact ⟨[], c :: text, readWord_of_stops (stops_cons ends text)⟩
    | false => exact ⟨c :: word, rest, readWord_cons noEscape ends read⟩

/-- A word without backslashes holds nothing that ends words. -/
theorem Word.forall_mem {word : List Char} (h : Word word) (noEscape : '\\' ∉ word) :
    ∀ c ∈ word, endsWord c = false := by
  induction h with
  | nil => exact List.forall_mem_nil _
  | plain _ stays _ ih =>
    exact List.forall_mem_cons.2 ⟨stays, ih fun later => noEscape (List.mem_cons_of_mem _ later)⟩
  | escape _ _ => exact absurd List.mem_cons_self noEscape

/-! ## Words and pieces -/

theorem words_nil : words [] = [] := by
  rw [words, List.splitOnP_nil]
  rfl

theorem words_blank {c : Char} (blank : isBlank c = true) (text : List Char) :
    words (c :: text) = words text := by
  rw [words, List.splitOnP_cons_eq_if_modifyHead, if_pos blank]
  rfl

/-- A word goes up to the next blank. -/
theorem words_append {word rest : List Char} (some : word ≠ [])
    (solid : ∀ c ∈ word, isBlank c = false) (stops : Stops isBlank rest) :
    words (word ++ rest) = word :: words rest := by
  have kept : (!word.isEmpty) = true := by simpa using some
  cases rest with
  | nil =>
    rw [List.append_nil, words_nil, words, List.splitOnP_eq_singleton solid, List.filter_cons,
      if_pos kept]
    rfl
  | cons c rest =>
    have blank : isBlank c = true := stops c rfl
    rw [words_blank blank, words, List.splitOnP_append_cons_of_forall_mem solid c blank,
      List.filter_cons, if_pos kept, words]

/-- Characters that do not separate calls belong to the first piece. -/
theorem splitOnP_append {word : List Char} (inCall : ∀ c ∈ word, separates c = false)
    (rest : List Char) :
    (word ++ rest).splitOnP separates = (rest.splitOnP separates).modifyHead (word ++ ·) := by
  induction word with
  | nil =>
    cases pieces : rest.splitOnP separates <;> simp [pieces]
  | cons c word ih =>
    obtain ⟨first, later⟩ := List.forall_mem_cons.1 inCall
    rw [List.cons_append, List.splitOnP_cons_eq_if_modifyHead, if_neg (by simp [first]), ih later,
      List.modifyHead_modifyHead]
    rfl

/-- Behind a plain word, the first piece is empty or goes on with a blank. -/
theorem stops_head_splitOnP {rest piece : List Char} {pieces : List (List Char)}
    (plain : ∀ c ∈ rest, c ∉ reserved) (stops : Stops endsWord rest)
    (split : rest.splitOnP separates = piece :: pieces) : Stops isBlank piece := by
  cases rest with
  | nil =>
    rw [List.splitOnP_nil] at split
    cases split
    exact stops_nil _
  | cons c rest =>
    rw [List.splitOnP_cons_eq_if_modifyHead] at split
    cases separator : separates c with
    | true =>
      rw [if_pos separator] at split
      cases split
      exact stops_nil _
    | false =>
      rw [if_neg (by simp [separator])] at split
      obtain ⟨first, others, equal⟩ := List.exists_cons_of_ne_nil
        (List.splitOnP_ne_nil separates rest)
      rw [equal, List.modifyHead_cons] at split
      obtain ⟨rfl, -⟩ := List.cons.inj split
      have starts := (notMem_reserved_iff.1 (plain c List.mem_cons_self)).2
      have ends : endsWord c = true := stops c rfl
      rw [endsWord, starts, separator] at ends
      exact stops_cons ends first

/-! ## Lexemes -/

/-- The pieces of a plain text, as rows of words, are those that its lexemes form. -/
theorem splitCalls_lexemes {text : List Char} (plain : ∀ c ∈ text, c ∉ reserved) :
    (lexemes text).map splitCalls = .ok ((text.splitOnP separates).map words) := by
  fun_induction lexemes text with
  | case1 =>
    rw [List.splitOnP_nil, List.map_singleton, words_nil]
    rfl
  | case2 c tail starts | case3 c tail starts | case4 c tail starts =>
    rw [(notMem_reserved_iff.1 (plain c List.mem_cons_self)).2] at starts
    cases starts
  | case5 c tail _ _ fault failed ih =>
    have later := ih fun d member => plain d (List.mem_cons_of_mem c member)
    rw [failed] at later
    cases later
  | case6 c tail _ separator more read ih =>
    have later := ih fun d member => plain d (List.mem_cons_of_mem c member)
    rw [read] at later
    rw [List.splitOnP_cons_eq_if_modifyHead, if_pos separator, List.map_cons, words_nil,
      ← Except.ok.inj later]
    rfl
  | case7 c tail _ stays blank ih =>
    rw [ih fun d member => plain d (List.mem_cons_of_mem c member),
      List.splitOnP_cons_eq_if_modifyHead, if_neg stays]
    obtain ⟨piece, pieces, split⟩ :=
      List.exists_cons_of_ne_nil (List.splitOnP_ne_nil separates tail)
    rw [split, List.modifyHead_cons, List.map_cons, List.map_cons, words_blank blank]
  | case8 c tail _ _ _ fault failed =>
    obtain ⟨word, rest, read⟩ := exists_readWord plain
    rw [failed] at read
    cases read
  | case9 c tail _ _ _ token rest word _ fault failed ih =>
    have behind := (word_of_readWord word).2.1
    have later := ih fun d member => plain d (by rw [behind]; exact List.mem_append_right _ member)
    rw [failed] at later
    cases later
  | case10 c tail starts separator blank token rest word _ more read ih =>
    obtain ⟨isWord, behind, stops⟩ := word_of_readWord word
    have some := ne_nil_of_readWord (by simp [endsWord, starts, separator, blank]) word
    rw [behind] at plain ⊢
    obtain ⟨plainWord, plainRest⟩ := List.forall_mem_append.1 plain
    have noEscape : '\\' ∉ token := fun member =>
      (notMem_reserved_iff.1 (plainWord _ member)).1 rfl
    have solid : ∀ d ∈ token, separates d = false ∧ isBlank d = false := fun d member => by
      have stays := isWord.forall_mem noEscape d member
      simp only [endsWord, Bool.or_eq_false_iff] at stays
      exact ⟨stays.1.2, stays.2⟩
    have later := ih plainRest
    rw [read] at later
    obtain ⟨piece, pieces, split⟩ :=
      List.exists_cons_of_ne_nil (List.splitOnP_ne_nil separates rest)
    have ends := stops_head_splitOnP plainRest stops split
    rw [splitOnP_append fun d member => (solid d member).1, split, List.modifyHead_cons,
      List.map_cons, words_append some (fun d member => (solid d member).2) ends]
    rw [split, List.map_cons] at later
    rw [Except.map, splitCalls, Except.ok.inj later, consToken]

/-- The calls of a plain text. -/
theorem readCalls_plain {text : List Char} (plain : ∀ c ∈ text, c ∉ reserved) :
    readCalls text = .ok (plainCalls text) := by
  have pieces := splitCalls_lexemes plain
  have same : separates = fun c => decide (c ∈ callEnds) := funext separates_eq
  rw [readCalls, plainCalls, ← same]
  cases read : lexemes text with
  | error fault =>
    rw [read] at pieces
    cases pieces
  | ok found =>
    rw [read] at pieces
    rw [Except.map, calls, Except.ok.inj pieces]

/-- **Plain inputs.** An input without reserved characters is never malformed. Its calls are the
pieces between semicolons and line breaks that hold a word, and their tokens are the words between
blanks. -/
theorem tokenize_plain {input : String} (plain : ∀ c ∈ input.toList, c ∉ reserved) :
    tokenize input = .ok ((plainCalls input.toList).map fun call => call.map String.ofList) := by
  rw [tokenize, readCalls_plain plain]

/-- Line breaks of both kinds, blanks of several kinds, and pieces without a word. -/
theorem tokenize_plain_say :
    (∀ c ∈ "say\u3000 hi,;\u2028 \x0b;\x85go\r\n(now) ".toList, c ∉ reserved) ∧
      tokenize "say\u3000 hi,;\u2028 \x0b;\x85go\r\n(now) " =
        .ok [["say", "hi,"], ["go"], ["(now)"]] := by
  have plain : ∀ c ∈ "say\u3000 hi,;\u2028 \x0b;\x85go\r\n(now) ".toList, c ∉ reserved := by
    simp [reserved]
  exact ⟨plain, tokenize_plain plain⟩

end Phrasebook.Input
