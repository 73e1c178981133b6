import Phrasebook.Call.Argument
import Phrasebook.Proofs.Input.Tokens
import Phrasebook.Proofs.Value.TextSpelling

/-!
# Quoted text in an input

Any text can be put into an input as one token by quoting it (`quoted`): a quote on both sides, and a
backslash before every backslash and every quote of that kind. Behind a text that ends in no comment, the
quotation is one token whatever it holds, and the text behind it is read as it would be alone.
`tokenize_quoted` states this for the calls of the input, and `decode_quoted` that the token spells the
text.
-/

namespace Phrasebook.Input

open Phrasebook.Text Phrasebook.Value

/-! ## Quotations -/

/-- The two characters that quote. -/
def isQuote (c : Char) : Bool :=
  c = '"' || c = '\''

/-- A text with a backslash before every backslash and every quote. -/
def escape (quote : Char) (content : List Char) : List Char :=
  content.flatMap fun c => if c = '\\' ∨ c = quote then ['\\', c] else [c]

/-- The quotation of a text. -/
def quotation (quote : Char) (content : List Char) : List Char :=
  quote :: (escape quote content ++ [quote])

/-- The token that spells a text in quotes. -/
def quoted (quote : Char) (text : String) : String :=
  String.ofList (quotation quote text.toList)

/-- A text is spelled by its escaped form. -/
theorem spellsText_escape {quote : Char} (h : isQuote quote = true) (content : List Char) :
    SpellsText quote (escape quote content) content := by
  induction content with
  | nil => exact .nil
  | cons c content ih =>
    rw [escape, List.flatMap_cons, ← escape]
    by_cases special : c = '\\' ∨ c = quote
    · have notMem : c ∉ ['n', 't', 'r', 'b', 'f', '0', 'u'] := by
        simp only [isQuote, Bool.or_eq_true, decide_eq_true_eq] at h
        rcases special with rfl | rfl
        · decide
        · rcases h with rfl | rfl <;> decide
      rw [if_pos special]
      exact .cons (.escaped notMem) ih
    · rw [if_neg special]
      simp only [not_or] at special
      exact .cons (.plain special.2 special.1) ih

/-- What is escaped is read back, up to the quote behind it. -/
theorem readQuoted_escape {quote : Char} (h : isQuote quote = true) (opening content : List Char)
    (rest : List Char) :
    readQuoted quote opening (escape quote content ++ quote :: rest) = .ok (content, rest) := by
  have quotes : quote = '"' ∨ quote = '\'' := by simpa [isQuote] using h
  exact (spellsText_escape h content).readQuoted_append quotes opening rest

/-- A quotation is read as the text that it holds, whatever follows. -/
theorem readElement_quotation {quote : Char} (h : isQuote quote = true) (content rest : List Char) :
    readElement false (quotation quote content ++ rest) =
      .ok (.string (String.ofList content), rest) := by
  have quotes : quote = '"' ∨ quote = '\'' := by simpa [isQuote] using h
  have opens : opensValue quote = true := by rcases quotes with rfl | rfl <;> decide
  have shape : quotation quote content ++ rest =
      quote :: (escape quote content ++ quote :: rest) := by simp [quotation]
  rw [shape, readElement_cons opens, if_pos quotes, readQuoted_escape h]

/-- A quotation is one token, whatever follows. -/
theorem stands_quotation {quote : Char} (h : isQuote quote = true) (content : List Char) :
    Stands (fun _ => true) (quotation quote content) := by
  have starts : startsValue quote = true := by
    simp only [isQuote, Bool.or_eq_true, decide_eq_true_eq] at h
    rcases h with rfl | rfl <;> decide
  exact stands_of_takes starts fun rest _ => readElement_quotation h content rest

/-- A text that begins with a quote and is one value is one token, whatever follows, and the quote ends it. -/
theorem stands_of_isQuote {quote : Char} (h : isQuote quote = true) {tail : List Char} {value : Value}
    (read : readElement false (quote :: tail) = .ok (value, [])) :
    Stands (fun _ => true) (quote :: tail) ∧ (quote :: tail).getLast? = some quote := by
  have quotes : quote = '"' ∨ quote = '\'' := by simpa [isQuote] using h
  have own : startsValue quote = true ∧ closesItself quote = true ∧ closing quote = quote ∧
      isBlank quote = false ∧ quote ≠ '#' ∧ quote ≠ '/' := by
    rcases quotes with rfl | rfl <;> decide
  obtain ⟨starts, closes, ends, stays, noHash, noSlash⟩ := own
  obtain ⟨trivia, c, body, isTrivia, -, equal, finished, -, takes⟩ := takes_of_readElement read
  rw [List.append_nil] at equal
  -- a quote begins no blanks and no comment
  have none : trivia = [] := by
    cases trivia with
    | nil => rfl
    | cons d trivia =>
      obtain ⟨rfl, -⟩ := List.cons.inj equal
      rcases isTrivia.head with blank | hash | slash
      · rw [stays] at blank
        cases blank
      · exact absurd hash noHash
      · exact absurd slash noSlash
  subst none
  obtain ⟨rfl, rfl⟩ := List.cons.inj equal
  refine ⟨stands_of_takes starts fun rest _ => takes rest (.inl closes), ?_⟩
  rcases finished with ⟨-, last⟩ | ⟨open', -⟩
  · rw [← ends]
    exact getLast?_cons_eq_some _ last
  · rw [closes] at open'
    cases open'

/-- The token spells the text. -/
theorem decode_quoted {quote : Char} (h : isQuote quote = true) (text : String) :
    decode (quoted quote text) = .ok (.string text) := by
  have element := readElement_quotation h text.toList []
  rw [List.append_nil, String.ofList_toList] at element
  rw [decode, Value.read, quoted, String.toList_ofList, readAll, element]
  rfl

/-! ## Quotations in an input -/

/-- A token between lexemes belongs to one of the calls, and the token itself does not matter. -/
theorem exists_calls_token (front back : List Lexeme) :
    ∃ before left right after, ∀ token,
      splitCalls (front ++ .token token :: back) = before ++ (left ++ token :: right) :: after := by
  induction front with
  | nil =>
    cases pieces : splitCalls back with
    | nil => exact ⟨[], [], [], [], fun token => by simp [splitCalls, pieces, consToken]⟩
    | cons piece others =>
      exact ⟨[], [], piece, others, fun token => by simp [splitCalls, pieces, consToken]⟩
  | cons first front ih =>
    obtain ⟨before, left, right, after, split⟩ := ih
    cases first with
    | separator =>
      exact ⟨[] :: before, left, right, after, fun token => by simp [splitCalls, split]⟩
    | token word =>
      cases before with
      | nil =>
        exact ⟨[], word :: left, right, after, fun token => by simp [splitCalls, split, consToken]⟩
      | cons call before =>
        exact ⟨(word :: call) :: before, left, right, after, fun token => by
          simp [splitCalls, split, consToken]⟩

/-- The lexemes of a text with a quotation in it. -/
theorem lexemes_quotation {quote : Char} (h : isQuote quote = true) {front : List Char}
    {found : List Lexeme} (read : lexemes front = .ok found) (noHash : '#' ∉ front)
    (noSlash : '/' ∉ front) (content back : List Char) :
    lexemes (front ++ (quotation quote content ++ back)) =
      (lexemes back).map (found ++ .token (quotation quote content) :: ·) := by
  have ends : endsWord quote = true := by
    simp only [isQuote, Bool.or_eq_true, decide_eq_true_eq] at h
    rcases h with rfl | rfl <;> decide
  have stops : Stops endsWord (quotation quote content ++ back) := stops_cons ends _
  rw [(lexes_of_lexemes read).lexemes_append noHash noSlash stops,
    stands_quotation h content back fun _ _ => rfl]
  cases lexemes back <;> rfl

/-- **Quotations in an input.** Behind a text that is read and holds no beginning of a comment, it does
not matter what a quotation holds: either the input is malformed for all contents, or its calls are the
same for all of them, but for the token that is the quotation. -/
theorem tokenize_quoted {quote : Char} (h : isQuote quote = true) {front : String}
    {found : List (List String)} (read : tokenize front = .ok found) (noHash : '#' ∉ front.toList)
    (noSlash : '/' ∉ front.toList) (back : String) :
    (∀ text, ∃ fault, tokenize (front ++ quoted quote text ++ back) = .error fault) ∨
      ∃ before left right after, ∀ text, tokenize (front ++ quoted quote text ++ back) =
        .ok (before ++ (left ++ quoted quote text :: right) :: after) := by
  have spelled : ∀ text, (front ++ quoted quote text ++ back).toList =
      front.toList ++ (quotation quote text.toList ++ back.toList) := by
    intro text
    simp [quoted]
  cases first : lexemes front.toList with
  | error fault =>
    rw [tokenize, readCalls, first] at read
    cases read
  | ok lexed =>
    have lex := fun text : String =>
      lexemes_quotation h first noHash noSlash text.toList back.toList
    cases rest : lexemes back.toList with
    | error fault =>
      refine .inl fun text => ⟨fault.within (front ++ quoted quote text ++ back).toList, ?_⟩
      rw [tokenize, readCalls, spelled, lex, rest]
      rfl
    | ok more =>
      obtain ⟨before, left, right, after, split⟩ := exists_calls_token lexed more
      refine .inr ⟨(before.filter fun call => !call.isEmpty).map fun call => call.map String.ofList,
        left.map String.ofList, right.map String.ofList,
        (after.filter fun call => !call.isEmpty).map fun call => call.map String.ofList,
        fun text => ?_⟩
      have some : (left ++ quotation quote text.toList :: right).isEmpty = false := by
        cases left <;> rfl
      rw [tokenize, readCalls, spelled, lex, rest]
      simp only [Except.map, calls, split, List.filter_append, List.filter_cons, some, Bool.not_false,
        if_true, List.map_append, List.map_cons, quoted]

end Phrasebook.Input
