import Phrasebook.Command.Resolve
import Phrasebook.Proofs.Grammar.Compiles
import Phrasebook.Proofs.Grammar.Sentence

/-!
# Every command can be called

A format string that holds no beginning of a comment (`Silent`) compiles to a grammar with something to say:
no bracket is empty, and every token may be followed by a blank (`Compiles.sayable`). So the sentence of the
grammar, spelled with single blanks, is read as the tokens that it is made of and calls the command:
`resolveSingle_sentence`.
-/

namespace Phrasebook

open Phrasebook.Text Phrasebook.Value Phrasebook.Input

/-! ## Texts without comments -/

/-- Text that holds no beginning of a comment. -/
def Silent (text : List Char) : Prop :=
  '#' ∉ text ∧ '/' ∉ text

theorem Silent.of_subset {text part : List Char} (h : Silent text) (subset : part ⊆ text) :
    Silent part :=
  ⟨fun hash => h.1 (subset hash), fun slash => h.2 (subset slash)⟩

/-- A token without comments may be followed by a blank. -/
theorem Input.Lexes.spaced_of_silent {text : List Char} {found : List Lexeme} (h : Lexes text found)
    (silent : Silent text) : ∀ token ∈ tokensOf found, Stands endsWord token := by
  induction h with
  | nil => intro token member; cases member
  | separator _ _ ih => exact ih (silent.of_subset (List.subset_cons_self _ _))
  | blank _ _ _ ih => exact ih (silent.of_subset (List.subset_cons_self _ _))
  | @token before token text _ stands reaches _ _ ih =>
    refine List.forall_mem_cons.2
      ⟨?_, ih (silent.of_subset (List.subset_append_right token text))⟩
    have own : Silent token := silent.of_subset (List.subset_append_left token text)
    rcases reaches with ⟨le, -⟩ | ⟨hash | slash, -⟩
    · exact stands.mono le
    · exact absurd hash own.1
    · exact absurd slash own.2

theorem spaced_of_tokenizeSingle {text : List Char} {tokens : List String} (silent : Silent text)
    (h : tokenizeSingle (String.ofList text) = .ok tokens) :
    tokens ≠ [] ∧ ∀ token ∈ tokens, Spaced token := by
  obtain ⟨⟨found, lexes, same⟩, some, -⟩ := exists_lexes_of_tokenizeSingle h
  refine ⟨some, fun token member => lexes.spaced_of_silent silent token.toList ?_⟩
  rw [same]
  exact List.mem_map_of_mem member

/-! ## Texts of a format string -/

theorem flatten_consPiece (front : List Char) (pieces : List (List Char)) :
    (consPiece front pieces).flatten = front ++ pieces.flatten := by
  cases pieces with
  | nil => rfl
  | cons piece pieces => rw [consPiece, List.flatten_cons, List.flatten_cons, List.append_assoc]

/-- The pieces of a text hold no more than the text. -/
theorem flatten_splitChoices_subset (depth : Nat) (text : List Char) :
    (splitChoices depth text).flatten ⊆ text := by
  fun_induction splitChoices depth text with
  | case1 => exact List.Subset.refl _
  | case2 => exact List.nil_subset _
  | case3 => exact List.Subset.refl _
  | case4 =>
    rename_i ih
    rw [flatten_consPiece]
    exact fun c member => List.mem_cons_of_mem _ (List.cons_subset_cons _ ih member)
  | case5 =>
    rename_i ih
    rw [flatten_consPiece]
    exact List.cons_subset_cons _ (List.cons_subset_cons _ ih)
  | case6 =>
    rename_i ih
    exact fun c member => List.mem_cons_of_mem _ (ih member)
  | case7 =>
    rename_i ih
    rw [flatten_consPiece]
    exact List.cons_subset_cons _ ih

theorem subset_trimUnescaped {text : List Char} (h : Paired text) : trimUnescaped text ⊆ text := by
  obtain ⟨front, back, equal, -⟩ := exists_trimUnescaped h
  intro c member
  rw [equal]
  exact List.mem_append_right front (List.mem_append_left back member)

theorem subset_of_mem_alternativeTexts {contents text : List Char} (paired : Paired contents)
    (member : text ∈ alternativeTexts contents) : text ⊆ contents := by
  obtain ⟨trimmed, -⟩ := List.mem_filter.1 member
  obtain ⟨piece, isPiece, rfl⟩ := List.mem_map.1 trimmed
  have isPaired := (pieces_splitChoices paired 0).1.paired piece isPiece
  intro c inText
  have inPiece : c ∈ piece := subset_trimUnescaped isPaired inText
  exact flatten_splitChoices_subset 0 contents (List.mem_flatten_of_mem isPiece inPiece)

theorem silent_bracketText {front contents rest : List Char} {opening closing : Char}
    (h : Silent (bracketText front opening contents closing rest)) :
    Silent front ∧ Silent contents ∧ Silent rest := by
  have inside : ∀ c ∈ contents ++ closing :: rest, c ∈ bracketText front opening contents closing rest :=
    fun c member => List.mem_append_right front (List.mem_cons_of_mem opening member)
  refine ⟨h.of_subset (List.subset_append_left _ _), h.of_subset fun c member => ?_,
    h.of_subset fun c member => ?_⟩
  · exact inside c (List.mem_append_left _ member)
  · exact inside c (List.mem_append_right contents (List.mem_cons_of_mem closing member))

theorem sayable_of_literalParts {front : List Char} {parts : Grammar} (plain : Plain front)
    (silent : Silent front) (h : literalParts front = .ok parts) : Grammar.Sayable parts := by
  rcases cases_of_literalParts h with ⟨-, rfl⟩ | ⟨tokens, single, rfl⟩
  · trivial
  · exact ⟨spaced_of_tokenizeSingle (silent.of_subset (subset_trimUnescaped plain.1)) single, trivial⟩

/-- A format string without comments has something to say. -/
theorem Compiles.sayable {text : List Char} {grammar : Grammar} (h : Compiles text grammar)
    (silent : Silent text) : Grammar.Sayable grammar := by
  induction h with
  | literal plain literal => exact sayable_of_literalParts plain silent literal
  | optional plain literal encloses inside some behind ih ih' =>
    obtain ⟨inFront, inside', inRest⟩ := silent_bracketText silent
    exact sayable_append (sayable_of_literalParts plain inFront literal)
      ⟨⟨some, ih inside'⟩, ih' inRest⟩
  | argument plain literal encloses noBrace some behind ih =>
    obtain ⟨inFront, -, inRest⟩ := silent_bracketText silent
    exact sayable_append (sayable_of_literalParts plain inFront literal) ⟨trivial, ih inRest⟩
  | @choices front contents rest parts alternatives more plain literal encloses length each some
      behind ih ih' =>
    obtain ⟨inFront, inside, inRest⟩ := silent_bracketText silent
    refine sayable_append (sayable_of_literalParts plain inFront literal) ⟨?_, ih' inRest⟩
    obtain ⟨first, others, rfl⟩ := List.exists_cons_of_ne_nil some
    -- the first alternative is the grammar of the first text
    obtain ⟨text, texts, equal⟩ := List.exists_cons_of_length_eq_add_one length
    have member : text ∈ alternativeTexts contents := equal ▸ List.mem_cons_self
    have zipped : (text, first) ∈ (alternativeTexts contents).zip (first :: others) := by
      rw [equal]
      exact List.mem_cons_self
    obtain ⟨neat, nonempty, starts⟩ := neat_alternativeTexts encloses.1 member
    have silentText := inside.of_subset (subset_of_mem_alternativeTexts encloses.1 member)
    exact ⟨(each text first zipped).ne_nil starts neat nonempty, ih text first zipped silentText⟩

/-! ## Calling a command by its sentence -/

/-- Tokens that may be followed by a blank are one call, spelled with single blanks. -/
theorem tokenize_of_spaced {tokens : List String} (some : tokens ≠ [])
    (spaced : ∀ token ∈ tokens, Spaced token) :
    tokenize (" ".intercalate tokens) = .ok [tokens] := by
  refine tokenize_call_of_stand some ?_
  clear some
  induction tokens with
  | nil => trivial
  | cons token tokens ih =>
    obtain ⟨own, later⟩ := List.forall_mem_cons.1 spaced
    exact .cons own (ih later)

/-- A command that takes all tokens of the only call is called, if there is no other one. -/
theorem resolveSingle_singleton {σ N : Type} {input : String} {tokens : List String}
    (read : tokenize input = .ok [tokens]) {command : Command σ N} {found : Match}
    (fits : command.match? tokens = some found) (all : found.tokenCount = tokens.length) :
    resolveSingle input [command] = .ok ⟨command, found⟩ := by
  have whole : command.fullMatch? tokens = some ⟨command, found⟩ := by
    rw [Command.fullMatch?, fits]
    exact if_neg (Nat.not_lt.2 (Nat.le_of_eq all.symm))
  have chosen : resolve tokens [command] = some ⟨command, found⟩ := by
    rw [resolve, List.foldl_cons, List.foldl_nil, whole]
    rfl
  rw [resolveSingle, resolveInput, read]
  simp only [resolveCalls, chosen]

/-- **No dead commands.** A format string without comments whose grammar has parts describes a command that
its sentence calls, with any tokens in the places of the arguments that are tokens by themselves and begin
no comment. A name is bound to the last of the tokens in its places, and nothing of what stands behind the
sentence is taken. -/
theorem resolveSingle_sentence {format : String} {grammar : Grammar}
    (compiled : compile format = .ok grammar) (nonempty : grammar ≠ [])
    (silent : Silent format.toList) {tokens : List String} {bound : List (String × String)}
    (fills : Fills (Grammar.slots grammar) tokens bound)
    (proper : ∀ entry ∈ bound, Silent entry.2.toList ∧ tokenizeSingle entry.2 = .ok [entry.2]) :
    tokenizeSingle (" ".intercalate tokens) = .ok tokens ∧
      ∀ {σ N : Type} (command : Command σ N), command.grammar = grammar →
        ∃ found, resolveSingle (" ".intercalate tokens) [command] = .ok ⟨command, found⟩ ∧
          found.tokenCount = tokens.length ∧
          (∀ name, found.arguments.get? name = Members.find? bound.reverse name) ∧
          ∀ more, command.match? (tokens ++ more) = some found := by
  have sayable : Grammar.Sayable grammar := (compiles_of_compileParts compiled).sayable silent
  have gaps : ∀ entry ∈ bound, Spaced entry.2 := by
    intro entry member
    obtain ⟨quiet, single⟩ := proper entry member
    rw [← String.ofList_toList (s := entry.2)] at single
    exact (spaced_of_tokenizeSingle quiet single).2 entry.2 (by simp)
  have spaced := fills.forall_tokens (fun _ => Grammar.spaced_of_mem_slots grammar sayable) gaps
  have read := tokenize_of_spaced (fills.ne_nil (Grammar.slots_ne_nil grammar nonempty sayable)) spaced
  refine ⟨tokenizeSingle_of_tokenize read, fun command isGrammar => ?_⟩
  have fits : ∀ more, command.match? (tokens ++ more) = some (.ofRun tokens bound) := by
    intro more
    rw [Command.match?, isGrammar]
    exact Grammar.match?_of_fills grammar sayable fills more
  have alone := fits []
  rw [List.append_nil] at alone
  exact ⟨.ofRun tokens bound, resolveSingle_singleton read alone rfl, rfl, Bindings.get?_ofList bound,
    fits⟩

/-- Every part is said, and the name that is given twice is bound to the later token. -/
theorem resolveSingle_sentence_show :
    let command : Command Unit String :=
      ⟨"show", [.literal ["show"] false, .optional [.literal ["the"] false, .argument "name"],
        .choices [[.literal ["emoticon", "\\("] false, .argument "name"], [.literal ["smiley"] false]]],
        none, none⟩
    Command.define "show" "show (the {name}) [emoticon \\( {name}, smiley]" = .ok command ∧
      ∃ found, resolveSingle "show the big emoticon \\( 'a b'" [command] = .ok ⟨command, found⟩ ∧
        found.tokenCount = 6 ∧ found.arguments.get? "name" = some "'a b'" := by
  intro command
  have compiled : compile "show (the {name}) [emoticon \\( {name}, smiley]" = .ok command.grammar := by
    cbv
  have fills : Fills (Grammar.slots command.grammar) ["show", "the", "big", "emoticon", "\\(", "'a b'"]
      [("name", "big"), ("name", "'a b'")] :=
    .word "show" (.word "the" (.gap "name" "big" (.word "emoticon" (.word "\\("
      (.gap "name" "'a b'" .nil)))))
  have big : tokenizeSingle "big" = .ok ["big"] := by cbv
  have quotation : tokenizeSingle "'a b'" = .ok ["'a b'"] := by
    simp [tokenizeSingle, tokenize, readCalls, lexemes_cons, lexemes_nil, startsValue, readElement_eq,
      skipTrivia, isBlank, readQuoted_cons, calls, splitCalls, consToken, Except.map]
  have proper : ∀ entry ∈ [("name", "big"), ("name", "'a b'")],
      Silent entry.2.toList ∧ tokenizeSingle entry.2 = .ok [entry.2] := by
    simp [Silent, big, quotation]
  have silent : Silent "show (the {name}) [emoticon \\( {name}, smiley]".toList := by
    simp [Silent]
  obtain ⟨found, resolves, count, binds, -⟩ :=
    (resolveSingle_sentence compiled (List.cons_ne_nil _ _) silent fills proper).2 command rfl
  have spelled : " ".intercalate ["show", "the", "big", "emoticon", "\\(", "'a b'"] =
      "show the big emoticon \\( 'a b'" := by
    decide
  refine ⟨?_, found, ?_, count, binds "name"⟩
  · rw [Command.define, compiled]
    rfl
  · rw [← spelled]
    exact resolves

end Phrasebook
