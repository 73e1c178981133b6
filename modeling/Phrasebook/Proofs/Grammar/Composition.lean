import Phrasebook.Proofs.Grammar.Printable

/-!
# Format strings that are put together

A format string can be put together from others: the grammar of a text with a bracket in it has the grammars
of the texts on both sides around the part that the bracket stands for. What is written in the bracket must
close the brackets that it opens, of every kind, since the compiler looks for the end of the bracket before
it looks into it. A format string does so if it compiles and its names hold no brackets
(`Compiles.nested`). The compiler also trims the alternatives of a choice before it compiles them, which
takes nothing from their grammars (`Compiles.trimmed`). `compile_composed` states the rule for all three
kinds of brackets.
-/

namespace Phrasebook

open Phrasebook.Text Phrasebook.Input

/-! ## Behind a format string -/

/-- Text that is compiled to the same parts behind every text without brackets. -/
def Continues (tail : List Char) (more : Grammar) : Prop :=
  ∀ {front : List Char} {parts : Grammar}, Plain front → literalParts front = .ok parts →
    Compiles (front ++ tail) (parts ++ more)

/-- It is compiled to these parts behind every text that compiles. -/
theorem Compiles.append {text tail : List Char} {grammar more : Grammar} (h : Compiles text grammar)
    (continues : Continues tail more) : Compiles (text ++ tail) (grammar ++ more) := by
  -- Only the text behind the last bracket meets the tail.
  induction h with
  | literal plain literal => exact continues plain literal
  | optional plain literal encloses inside some _ _ ih =>
    rw [bracketText_append, List.append_assoc, List.cons_append]
    exact .optional plain literal encloses inside some ih
  | argument plain literal encloses noBrace some _ ih =>
    rw [bracketText_append, List.append_assoc, List.cons_append]
    exact .argument plain literal encloses noBrace some ih
  | choices plain literal encloses length each some _ _ ih =>
    rw [bracketText_append, List.append_assoc, List.cons_append]
    exact .choices plain literal encloses length each some ih

/-! ## Brackets that are closed -/

/-- Nested text stays nested when the commas outside brackets are escaped. -/
theorem Nested.exists_escapeOutside {text : List Char} (h : Nested text) :
    ∃ written, Nested written ∧
      ∀ rest, escapeOutside 0 (text ++ rest) = written ++ escapeOutside 0 rest := by
  induction h with
  | plain plain => exact ⟨_, .plain (plain_escapeCommas plain), plain.escapeOutside_append⟩
  | append _ _ ih ih' =>
    obtain ⟨front, isFront, inFront⟩ := ih
    obtain ⟨back, isBack, inBack⟩ := ih'
    refine ⟨front ++ back, isFront.append isBack, fun rest => ?_⟩
    rw [List.append_assoc, inFront, inBack, List.append_assoc]
  | @bracket opening closing contents matching inside _ =>
    refine ⟨opening :: contents ++ [closing], .bracket matching inside, fun rest => ?_⟩
    have whole := inside.inner.escapeOutside_bracket matching 0 rest
    simpa only [List.cons_append, List.append_assoc, List.nil_append] using whole

theorem nested_joinPieces {pieces : List (List Char)} (each : ∀ piece ∈ pieces, Nested piece) :
    Nested (joinPieces 0 pieces) := by
  induction pieces with
  | nil => exact .plain plain_nil
  | cons piece pieces ih =>
    obtain ⟨first, later⟩ := List.forall_mem_cons.1 each
    obtain ⟨written, isWritten, escaped⟩ := first.exists_escapeOutside
    have own : escapeOutside 0 piece = written := by
      have alone := escaped []
      rwa [List.append_nil, escapeOutside, List.append_nil] at alone
    cases pieces with
    | nil =>
      rw [joinPieces, own]
      exact isWritten
    | cons next more =>
      have comma : Nested [','] := .plain ((plain_bare (by decide)).2 ⟨by decide, plain_nil⟩)
      rw [joinPieces, own]
      exact isWritten.append (comma.append (ih later))

/-- The contents of a choice are nested if its alternatives are. -/
theorem nested_of_alternativeTexts {contents : List Char} (paired : Paired contents)
    (each : ∀ text ∈ alternativeTexts contents, Nested text) : Nested contents := by
  obtain ⟨isPieces, joined⟩ := pieces_splitChoices paired 0
  rw [← joined]
  refine nested_joinPieces fun piece member => ?_
  obtain ⟨front, back, equal, inFront, inBack, -⟩ :=
    exists_trimUnescaped (isPieces.paired piece member)
  have core : Nested (trimUnescaped piece) := by
    by_cases empty : trimUnescaped piece = []
    · rw [empty]
      exact .plain plain_nil
    · exact each _ (List.mem_filter.2 ⟨List.mem_map_of_mem member, by simp [empty]⟩)
  rw [equal]
  exact (Nested.plain (plain_blanks inFront)).append (core.append (.plain (plain_blanks inBack)))

theorem nested_bracketText {opening closing : Char} (h : Matching opening closing)
    {front contents rest : List Char} (plain : Plain front) (inside : Nested contents)
    (behind : Nested rest) : Nested (bracketText front opening contents closing rest) := by
  have whole := (Nested.plain plain).append ((Nested.bracket h inside).append behind)
  rwa [append_bracket] at whole

/-- A text that compiles is nested, if the names in its grammar hold no bare brackets. -/
theorem Compiles.nested {text : List Char} {grammar : Grammar} (h : Compiles text grammar)
    (names : ∀ name ∈ Grammar.argumentNames grammar, Plain name.toList) : Nested text := by
  induction h with
  | literal plain _ => exact .plain plain
  | optional plain _ _ _ _ _ ih ih' =>
    rw [argumentNames_append, List.forall_mem_append, Grammar.argumentNames, Part.argumentNames,
      List.forall_mem_append] at names
    exact nested_bracketText .round plain (ih names.2.1) (ih' names.2.2)
  | argument plain _ _ _ _ _ ih =>
    rw [argumentNames_append, List.forall_mem_append, Grammar.argumentNames, Part.argumentNames,
      List.forall_mem_append, List.forall_mem_singleton, String.toList_ofList] at names
    exact nested_bracketText .brace plain (.plain names.2.1) (ih names.2.2)
  | @choices _ contents _ _ alternatives _ plain _ encloses length _ _ _ ih ih' =>
    rw [argumentNames_append, List.forall_mem_append, Grammar.argumentNames, Part.argumentNames,
      List.forall_mem_append] at names
    have each : ∀ text ∈ alternativeTexts contents, Nested text := by
      intro text member
      rw [← List.map_fst_zip (Nat.le_of_eq length), List.mem_map] at member
      obtain ⟨⟨text, alternative⟩, inZip, rfl⟩ := member
      exact ih text alternative inZip fun name named =>
        names.2.1 name (mem_alternativeNames (List.of_mem_zip inZip).2 named)
    exact nested_bracketText .square plain (nested_of_alternativeTexts encloses.1 each)
      (ih' names.2.2)

/-! ## Blanks that are trimmed -/

theorem compiles_append_of_blank {blanks text : List Char} (inBlanks : ∀ c ∈ blanks, isBlank c = true)
    {grammar : Grammar} : Compiles (blanks ++ text) grammar ↔ Compiles text grammar := by
  induction blanks with
  | nil => rfl
  | cons c blanks ih =>
    obtain ⟨blank, later⟩ := List.forall_mem_cons.1 inBlanks
    rw [List.cons_append, compiles_cons_blank blank, ih later]

/-- Blanks behind a text with a bracket stand behind the bracket. -/
theorem exists_rest_of_blanks {opening closing : Char} (kind : Matching opening closing)
    {front contents rest text blanks : List Char} (plain : Plain front)
    (encloses : Encloses opening closing contents) (inBlanks : ∀ c ∈ blanks, isBlank c = true)
    (neat : Neat text) (equal : bracketText front opening contents closing rest = text ++ blanks) :
    ∃ shorter, rest = shorter ++ blanks ∧ Neat shorter ∧
      text = bracketText front opening contents closing shorter := by
  have paired : Paired (bracketText front opening contents closing []) :=
    paired_bracketText kind plain.1 encloses.1 .nil
  have ends : bracketText front opening contents closing [] =
      (front ++ opening :: contents) ++ [closing] := by
    simp [bracketText]
  have divide : bracketText front opening contents closing [] ++ rest = text ++ blanks := by
    rw [bracketText_append]
    exact equal
  rcases List.append_eq_append_iff.1 divide with
    ⟨shorter, isText, isRest⟩ | ⟨more, isBracket, isBlanks⟩
  · refine ⟨shorter, isRest, ?_, by rw [isText, bracketText_append]; rfl⟩
    rw [isText] at neat
    exact neat.of_append paired
  · -- The closing bracket is not one of the blanks.
    rcases List.eq_nil_or_concat more with rfl | ⟨inner, c, rfl⟩
    · rw [List.append_nil] at isBracket
      exact ⟨[], isBlanks.symm, neat_nil, isBracket.symm⟩
    · rw [ends, List.concat_eq_append, ← List.append_assoc] at isBracket
      obtain ⟨-, last⟩ := List.append_inj' isBracket rfl
      cases last
      have blank := inBlanks closing (by rw [isBlanks]; simp)
      cases kind <;> exact absurd blank (by decide)

/-- Blanks behind a text have no part in its grammar, if they are bare. -/
theorem Compiles.of_append_blanks {whole text blanks : List Char} {grammar : Grammar}
    (h : Compiles whole grammar) (inBlanks : ∀ c ∈ blanks, isBlank c = true) (neat : Neat text)
    (equal : whole = text ++ blanks) : Compiles text grammar := by
  induction h generalizing text with
  | @literal front parts plain literal =>
    subst equal
    rw [literalParts, trimUnescaped_append_of_blank neat inBlanks, ← literalParts] at literal
    exact .literal ((plain_append neat.1).1 plain).1 literal
  | optional plain literal encloses inside some _ _ ih =>
    obtain ⟨shorter, isRest, isNeat, rfl⟩ :=
      exists_rest_of_blanks .round plain encloses inBlanks neat equal
    exact .optional plain literal encloses inside some (ih isNeat isRest)
  | argument plain literal encloses noBrace some _ ih =>
    obtain ⟨shorter, isRest, isNeat, rfl⟩ :=
      exists_rest_of_blanks .brace plain encloses inBlanks neat equal
    exact .argument plain literal encloses noBrace some (ih isNeat isRest)
  | choices plain literal encloses length each some _ _ ih =>
    obtain ⟨shorter, isRest, isNeat, rfl⟩ :=
      exists_rest_of_blanks .square plain encloses inBlanks neat equal
    exact .choices plain literal encloses length each some (ih isNeat isRest)

/-- Trimming a text takes nothing from its grammar. -/
theorem Compiles.trimmed {text : List Char} {grammar : Grammar} (h : Compiles text grammar) :
    Compiles (trimUnescaped text) grammar := by
  obtain ⟨front, back, equal, inFront, inBack, -, neat⟩ := exists_trimUnescaped h.paired
  rw [equal, compiles_append_of_blank inFront] at h
  exact h.of_append_blanks inBack neat rfl

theorem Compiles.trimUnescaped_ne_nil {text : List Char} {grammar : Grammar}
    (h : Compiles text grammar) (some : grammar ≠ []) : trimUnescaped text ≠ [] := by
  intro empty
  have none := compiles_iff.1 h.trimmed
  rw [empty, compileParts_eq] at none
  exact some (Except.ok.inj none).symm

/-! ## Alternatives between commas -/

theorem escapeOutside_of_notMem {text : List Char} (paired : Paired text) (noComma : ',' ∉ text)
    (depth : Nat) : escapeOutside depth text = text := by
  induction paired generalizing depth with
  | nil => rfl
  | bare plain _ ih =>
    rw [List.mem_cons, not_or] at noComma
    rw [escapeOutside_bare plain fun ⟨comma, _⟩ => noComma.1 comma.symm, ih noComma.2]
  | escaped _ ih =>
    rw [List.mem_cons, List.mem_cons, not_or, not_or] at noComma
    rw [escapeOutside_escaped, ih noComma.2.2]

theorem clear_of_notMem {text : List Char} (paired : Paired text) (noComma : ',' ∉ text)
    (depth : Nat) : Clear depth (marks text) := by
  induction paired generalizing depth with
  | nil => trivial
  | bare plain _ ih =>
    rw [List.mem_cons, not_or] at noComma
    rw [marks_bare plain, clear_bare]
    exact ih noComma.2 _
  | escaped _ ih =>
    rw [List.mem_cons, List.mem_cons, not_or, not_or] at noComma
    rw [marks_escaped, clear_escaped]
    exact ⟨fun comma => absurd comma.symm noComma.2.1, ih noComma.2.2 depth⟩

theorem Nested.isPiece {text : List Char} (h : Nested text) (noComma : ',' ∉ text) :
    IsPiece text :=
  ⟨h.paired, clear_of_notMem h.paired noComma 0, h.depthBehind_eq⟩

theorem joinPieces_of_notMem {texts : List (List Char)} (paired : ∀ text ∈ texts, Paired text)
    (noComma : ∀ text ∈ texts, ',' ∉ text) : joinPieces 0 texts = [','].intercalate texts := by
  have same : texts.map (escapeOutside 0) = texts.map id :=
    List.map_congr_left fun text member =>
      escapeOutside_of_notMem (paired text member) (noComma text member) 0
  rw [joinPieces_zero, same, List.map_id]

/-- Texts without commas are the alternatives of the choice that they are put together to. -/
theorem alternativeTexts_intercalate {texts : List (List Char)} (some : texts ≠ [])
    (nested : ∀ text ∈ texts, Nested text) (noComma : ∀ text ∈ texts, ',' ∉ text)
    (solid : ∀ text ∈ texts, trimUnescaped text ≠ []) :
    alternativeTexts ([','].intercalate texts) = texts.map trimUnescaped := by
  have isPieces : Pieces 0 texts :=
    pieces_of_forall some fun text member => (nested text member).isPiece (noComma text member)
  rw [← joinPieces_of_notMem isPieces.paired noComma, alternativeTexts,
    splitChoices_joinPieces isPieces, List.filter_eq_self, List.forall_mem_map]
  exact fun text member => by simpa using solid text member

/-! ## Composition -/

/-- Format strings that can stand in brackets, with their grammars: there is a part in the grammar, and no
name in it holds a bracket of any kind. -/
structure Enclosable (format : String) (body : Grammar) : Prop where
  compiled : compile format = .ok body
  nonempty : body ≠ []
  unbracketed : ∀ name ∈ Grammar.argumentNames body, ∀ c ∈ name.toList, isBracket c = false

theorem Enclosable.compiles {format : String} {body : Grammar} (h : Enclosable format body) :
    Compiles format.toList body :=
  compiles_of_compileParts h.compiled

theorem Enclosable.nested {format : String} {body : Grammar} (h : Enclosable format body) :
    Nested format.toList := by
  refine h.compiles.nested fun name member => ?_
  refine ⟨h.compiles.paired_argumentNames name member, fun c bracket => ?_⟩
  obtain ⟨inName, isBracket⟩ := of_bracket_mem_marks bracket
  rw [h.unbracketed name member c inName] at isBracket
  cases isBracket

/-- Format strings with commas between them are the alternatives of a choice, each with the grammar that it
has by itself. -/
theorem compiles_alternativeTexts {formats : List String} {alternatives : List Grammar}
    (some : formats ≠ []) (each : List.Forall₂ Enclosable formats alternatives)
    (noComma : ∀ format ∈ formats, ',' ∉ format.toList) :
    Nested ([','].intercalate (formats.map String.toList)) ∧
      List.Forall₂ Compiles (alternativeTexts ([','].intercalate (formats.map String.toList)))
        alternatives := by
  have both : List.Forall₂ (fun format body =>
      (Nested format.toList ∧ trimUnescaped format.toList ≠ []) ∧
        Compiles (trimUnescaped format.toList) body) formats alternatives :=
    each.imp fun _ _ enclosable => ⟨⟨enclosable.nested,
      enclosable.compiles.trimUnescaped_ne_nil enclosable.nonempty⟩, enclosable.compiles.trimmed⟩
  obtain ⟨own, trimmed⟩ := (List.forall₂_and_left _ _).1 both
  have nested : ∀ text ∈ formats.map String.toList, Nested text :=
    List.forall_mem_map.2 fun format member => (own format member).1
  have solid : ∀ text ∈ formats.map String.toList, trimUnescaped text ≠ [] :=
    List.forall_mem_map.2 fun format member => (own format member).2
  have free : ∀ text ∈ formats.map String.toList, ',' ∉ text := List.forall_mem_map.2 noComma
  constructor
  · rw [← joinPieces_of_notMem (fun text member => (nested text member).paired) free]
    exact nested_joinPieces nested
  · rw [alternativeTexts_intercalate (by simpa using some) nested free solid, List.map_map,
      List.forall₂_map_left_iff]
    exact trimmed

/-- **Composition.** Between two format strings, what is written in brackets adds one part to their grammars
and changes nothing else: round brackets an optional part with the grammar of the format string in them,
square brackets a choice with the grammars of the format strings between the commas, which hold no commas
themselves, and braces an argument. -/
theorem compile_composed {front rest : String} {before after : Grammar}
    (isFront : compile front = .ok before) (isRest : compile rest = .ok after) :
    (∀ format body, Enclosable format body →
      compile (front ++ "(" ++ format ++ ")" ++ rest) = .ok (before ++ .optional body :: after)) ∧
    (∀ formats alternatives, formats ≠ [] → List.Forall₂ Enclosable formats alternatives →
      (∀ format ∈ formats, ',' ∉ format.toList) →
      compile (front ++ "[" ++ ",".intercalate formats ++ "]" ++ rest) =
        .ok (before ++ .choices alternatives :: after)) ∧
    ∀ name, WritableName name →
      compile (front ++ "\x7b" ++ name ++ "\x7d" ++ rest) =
        .ok (before ++ .argument name :: after) := by
  have inFront : Compiles front.toList before := compiles_of_compileParts isFront
  have behind : Compiles rest.toList after := compiles_of_compileParts isRest
  refine ⟨fun format body enclosable => ?_, fun formats alternatives some each noComma => ?_,
    fun name writable => ?_⟩
  all_goals rw [compile, ← compiles_iff]
  · have whole := inFront.append fun plain literal => .optional plain literal
      (enclosable.nested.encloses .round) enclosable.compiles enclosable.nonempty behind
    simpa [bracketText] using whole
  · obtain ⟨nested, all⟩ := compiles_alternativeTexts some each noComma
    obtain ⟨length, isAlternative⟩ := List.forall₂_iff_zip.1 all
    have some' : alternatives ≠ [] := by
      rintro rfl
      exact some (List.forall₂_nil_right_iff.1 each)
    have whole := inFront.append fun plain literal => .choices plain literal
      (nested.encloses .square) length (fun _ _ member => isAlternative member) some' behind
    simpa [bracketText] using whole
  · have noBrace : '{' ∉ name.toList := fun member => by cases (writable.2 '{' member).1
    have whole := inFront.append fun plain literal => .argument plain literal
      ((Nested.plain writable.plain).encloses .brace) noBrace writable.1 behind
    simpa [bracketText] using whole

/-- The blanks around an alternative are trimmed, and those in a name are not. -/
theorem compile_composed_open :
    let before : Grammar := [.literal ["open"] false]
    let after : Grammar := [.literal ["now"] false]
    let thing : Grammar := [.literal ["the"] false, .argument "thing"]
    let either : List Grammar := [[.literal ["door"] false], [.optional [.literal ["big"] false]]]
    compile "open" = .ok before ∧ compile "now" = .ok after ∧
      (Enclosable "the \x7bthing\x7d" thing ∧
        compile ("open" ++ "(" ++ "the \x7bthing\x7d" ++ ")" ++ "now") =
          .ok (before ++ .optional thing :: after)) ∧
      (List.Forall₂ Enclosable [" door ", "(big)"] either ∧
        compile ("open" ++ "[" ++ ",".intercalate [" door ", "(big)"] ++ "]" ++ "now") =
          .ok (before ++ .choices either :: after)) ∧
      WritableName " it " ∧
        compile ("open" ++ "\x7b" ++ " it " ++ "\x7d" ++ "now") =
          .ok (before ++ .argument " it " :: after) := by
  intro before after thing either
  have isFront : compile "open" = .ok before := by cbv
  have isRest : compile "now" = .ok after := by cbv
  have inRound : Enclosable "the \x7bthing\x7d" thing :=
    ⟨by cbv, by decide, List.forall_mem_singleton.2
      (by simp [isBracket, opensBracket, closesBracket])⟩
  have first : Enclosable " door " [.literal ["door"] false] := ⟨by cbv, by decide, by decide⟩
  have second : Enclosable "(big)" [.optional [.literal ["big"] false]] :=
    ⟨by cbv, by decide, by decide⟩
  have each : List.Forall₂ Enclosable [" door ", "(big)"] either := .cons first (.cons second .nil)
  have noComma : ∀ format ∈ [" door ", "(big)"], ',' ∉ format.toList := by simp
  have name : WritableName " it " :=
    ⟨by decide, by simp [isBracket, opensBracket, closesBracket]⟩
  obtain ⟨round, square, brace⟩ := compile_composed isFront isRest
  exact ⟨isFront, isRest, ⟨inRound, round _ _ inRound⟩,
    ⟨each, square _ _ (List.cons_ne_nil _ _) each noComma⟩, name, brace _ name⟩

end Phrasebook
