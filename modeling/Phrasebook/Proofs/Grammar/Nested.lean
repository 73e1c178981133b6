import Phrasebook.Proofs.Grammar.Commas

/-!
# Texts with nested brackets

The text of a grammar is `Nested` if every bracket in its names and tokens is escaped: each bare bracket is
closed by the one that is written for it (`Grammar.nested_text`). Scanning such a text leaves the level of
brackets as it was, whichever kind is counted, and inside brackets no comma of it has to be escaped.
-/

namespace Phrasebook

/-! ## Inside brackets -/

/-- Text that is left as it is inside brackets, and leaves the depth as it is. -/
def Inner (text : List Char) : Prop :=
  ∀ depth rest, escapeOutside (depth + 1) (text ++ rest) = text ++ escapeOutside (depth + 1) rest

theorem inner_nil : Inner [] :=
  fun _ _ => rfl

theorem Inner.append {front back : List Char} (h : Inner front) (h' : Inner back) :
    Inner (front ++ back) := by
  intro depth rest
  rw [List.append_assoc, h, h', List.append_assoc]

theorem inner_cons {c : Char} (plain : c ≠ '\\') (noBracket : isBracket c = false)
    {text : List Char} (h : Inner text) : Inner (c :: text) := by
  intro depth rest
  rw [List.cons_append, escapeOutside_bare plain (by simp), charDepth_of_not_isBracket noBracket, h,
    List.cons_append]

theorem Plain.inner {text : List Char} (h : Plain text) : Inner text := by
  obtain ⟨paired, -⟩ := id h
  induction paired with
  | nil => exact inner_nil
  | bare plain _ ih =>
    obtain ⟨noBracket, later⟩ := (plain_bare plain).1 h
    exact inner_cons plain noBracket (ih later)
  | escaped _ ih =>
    intro depth rest
    rw [List.cons_append, List.cons_append, escapeOutside_escaped, ih (plain_escaped.1 h),
      List.cons_append, List.cons_append]

theorem Matching.charDepth_eq {opening closing : Char} (h : Matching opening closing) (depth : Nat) :
    charDepth depth opening = depth + 1 ∧ charDepth (depth + 1) closing = depth := by
  cases h <;> exact ⟨rfl, rfl⟩

/-- A bracket is left as it is, at every depth. -/
theorem Inner.escapeOutside_bracket {opening closing : Char} (h : Matching opening closing)
    {contents : List Char} (inner : Inner contents) (depth : Nat) (rest : List Char) :
    escapeOutside depth (opening :: (contents ++ closing :: rest)) =
      opening :: (contents ++ closing :: escapeOutside depth rest) := by
  have noComma : opening ≠ ',' ∧ closing ≠ ',' := by cases h <;> decide
  rw [escapeOutside_bare h.plain.1 (fun ⟨comma, _⟩ => noComma.1 comma), (h.charDepth_eq depth).1,
    inner, escapeOutside_bare h.plain.2 (fun ⟨comma, _⟩ => noComma.2 comma), (h.charDepth_eq depth).2]

theorem Inner.bracket {opening closing : Char} (h : Matching opening closing)
    {contents : List Char} (inner : Inner contents) : Inner (opening :: contents ++ [closing]) := by
  intro depth rest
  rw [List.cons_append, List.cons_append, List.append_assoc, List.singleton_append,
    inner.escapeOutside_bracket h, List.cons_append, List.append_assoc, List.singleton_append]

theorem plain_escapeCommas {text : List Char} (h : Plain text) : Plain (escapeCommas text) := by
  obtain ⟨paired, -⟩ := id h
  induction paired with
  | nil => exact plain_nil
  | @bare c text plain _ ih =>
    obtain ⟨noBracket, later⟩ := (plain_bare plain).1 h
    by_cases comma : c = ','
    · subst comma
      rw [escapeCommas_comma]
      exact plain_escaped.2 (ih later)
    · rw [escapeCommas_bare plain comma]
      exact (plain_bare plain).2 ⟨noBracket, ih later⟩
  | escaped _ ih =>
    rw [escapeCommas_escaped]
    exact plain_escaped.2 (ih (plain_escaped.1 h))

theorem plain_spaced {call : List (List Char)} (each : ∀ token ∈ call, Plain token) :
    Plain ([' '].intercalate call) := by
  obtain ⟨paired, marks_eq⟩ := paired_spaced fun token member => (each token member).1
  refine ⟨paired, fun c bracket => ?_⟩
  rw [marks_eq, List.mem_flatMap] at bracket
  obtain ⟨token, member, bracket⟩ := bracket
  exact (each token member).2 c bracket

theorem plain_tokensText (inChoice : Bool) {tokens : List String}
    (words : ∀ word ∈ tokens, Plain word.toList) : Plain (tokensText inChoice tokens) := by
  rw [tokensText]
  refine plain_spaced (List.forall_mem_map.2 fun token member => ?_)
  cases inChoice with
  | false => exact words token member
  | true => exact plain_escapeCommas (words token member)

/-! ## Nested brackets -/

/-- Text in which every bare bracket is closed by one of its kind. -/
inductive Nested : List Char → Prop
  | plain {text : List Char} : Plain text → Nested text
  | append {front back : List Char} : Nested front → Nested back → Nested (front ++ back)
  | bracket {opening closing : Char} {contents : List Char} :
    Matching opening closing → Nested contents → Nested (opening :: contents ++ [closing])

theorem Nested.paired {text : List Char} (h : Nested text) : Paired text := by
  induction h with
  | plain plain => exact plain.1
  | append _ _ ih ih' => exact ih.append ih'
  | bracket matching _ ih =>
    exact .bare matching.plain.1 (ih.append (.bare matching.plain.2 .nil))

theorem Nested.inner {text : List Char} (h : Nested text) : Inner text := by
  induction h with
  | plain plain => exact plain.inner
  | append _ _ ih ih' => exact ih.append ih'
  | bracket matching _ ih => exact ih.bracket matching

section

variable {text : List Char} {depth : Nat} {more : List Mark}

/-- Text without bare brackets has only commas for marks. -/
theorem Plain.eq_comma_of_mem (h : Plain text) {mark : Mark} (member : mark ∈ marks text) :
    ∃ escaped, mark = .comma escaped := by
  cases mark with
  | bracket c => exact absurd member (h.2 c)
  | comma escaped => exact ⟨escaped, rfl⟩

theorem marks_bracket {opening closing : Char} (h : Matching opening closing)
    {contents : List Char} (paired : Paired contents) :
    marks (opening :: contents ++ [closing]) =
      .bracket opening :: (marks contents ++ [.bracket closing]) := by
  have own : bareMark opening = [.bracket opening] ∧ bareMark closing = [.bracket closing] := by
    cases h <;> decide
  rw [List.cons_append, marks_bare h.plain.1, paired.marks_append, marks_bare h.plain.2, own.1, own.2]
  rfl

theorem level?_append_of_commas {opening closing : Char} {front : List Mark}
    (commas : ∀ mark ∈ front, ∃ escaped, mark = .comma escaped) :
    level? opening closing depth (front ++ more) = level? opening closing depth more := by
  induction front with
  | nil => rfl
  | cons mark front ih =>
    obtain ⟨⟨escaped, rfl⟩, later⟩ := List.forall_mem_cons.1 commas
    exact ih later

/-- Behind nested text, the level of brackets of one kind is what it was. -/
theorem Nested.level?_append {opening closing : Char} (kind : Matching opening closing)
    (h : Nested text) :
    level? opening closing depth (marks text ++ more) = level? opening closing depth more := by
  induction h generalizing depth more with
  | plain plain => exact level?_append_of_commas fun mark => plain.eq_comma_of_mem
  | append first _ ih ih' => rw [first.paired.marks_append, List.append_assoc, ih, ih']
  | bracket matching inside ih =>
    rw [marks_bracket matching inside.paired, List.cons_append, List.append_assoc]
    cases kind <;> cases matching <;> simp [level?, ih]

theorem Nested.encloses {opening closing : Char} (kind : Matching opening closing)
    (h : Nested text) : Encloses opening closing text := by
  have level := @Nested.level?_append text 0 [] opening closing kind h
  rw [List.append_nil] at level
  exact ⟨h.paired, level⟩

theorem depthBehind_append_of_commas {front : List Mark}
    (commas : ∀ mark ∈ front, ∃ escaped, mark = .comma escaped) :
    depthBehind depth (front ++ more) = depthBehind depth more := by
  induction front with
  | nil => rfl
  | cons mark front ih =>
    obtain ⟨⟨escaped, rfl⟩, later⟩ := List.forall_mem_cons.1 commas
    exact ih later

/-- Behind nested text, the depth in brackets of any kind is what it was. -/
theorem Nested.depthBehind_append (h : Nested text) :
    depthBehind depth (marks text ++ more) = depthBehind depth more := by
  induction h generalizing depth more with
  | plain plain => exact depthBehind_append_of_commas fun mark => plain.eq_comma_of_mem
  | append first _ ih ih' => rw [first.paired.marks_append, List.append_assoc, ih, ih']
  | bracket matching inside ih =>
    rw [marks_bracket matching inside.paired, List.cons_append, List.append_assoc, depthBehind, ih,
      (matching.charDepth_eq depth).1, List.singleton_append, depthBehind,
      (matching.charDepth_eq depth).2]

theorem Nested.depthBehind_eq (h : Nested text) : depthBehind depth (marks text) = depth := by
  have behind := @Nested.depthBehind_append text depth [] h
  rwa [List.append_nil] at behind

theorem clear_append_of_commas {front : List Mark}
    (commas : ∀ mark ∈ front, ∃ escaped, mark = .comma escaped)
    (outside : depth = 0 → Mark.comma true ∉ front) (later : Clear depth more) :
    Clear depth (front ++ more) := by
  induction front with
  | nil => exact later
  | cons mark front ih =>
    obtain ⟨⟨escaped, rfl⟩, commas'⟩ := List.forall_mem_cons.1 commas
    refine ⟨fun isEscaped isOutside => ?_, ih commas' fun isOutside member => ?_⟩
    · rw [isEscaped] at outside
      exact outside isOutside List.mem_cons_self
    · exact outside isOutside (List.mem_cons_of_mem _ member)

/-- In a bracket, no comma stands outside brackets. -/
theorem clear_bracket {opening closing : Char} (matching : Matching opening closing)
    (paired : Paired text)
    (inside : ∀ {more}, Clear (depth + 1) more → Clear (depth + 1) (marks text ++ more))
    (later : Clear depth more) : Clear depth (marks (opening :: text ++ [closing]) ++ more) := by
  rw [marks_bracket matching paired, List.cons_append, List.append_assoc, Clear,
    (matching.charDepth_eq depth).1]
  refine inside ?_
  rw [List.singleton_append, Clear, (matching.charDepth_eq depth).2]
  exact later

/-- Inside brackets, no comma of a nested text stands outside brackets. -/
theorem Nested.clear_append (h : Nested text) (later : Clear (depth + 1) more) :
    Clear (depth + 1) (marks text ++ more) := by
  induction h generalizing depth more with
  | plain plain =>
    exact clear_append_of_commas (fun mark => plain.eq_comma_of_mem) (fun isOutside => by cases isOutside)
      later
  | append first _ ih ih' =>
    rw [first.paired.marks_append, List.append_assoc]
    exact ih (ih' later)
  | bracket matching inside ih => exact clear_bracket matching inside.paired ih later

end

/-! ## Texts of grammars -/

theorem nested_blank : Nested [' '] :=
  .plain ((plain_bare (by decide)).2 ⟨by decide, plain_nil⟩)

mutual

theorem Part.nested_text (part : Part) (inChoice : Bool)
    (words : ∀ word ∈ part.literalWords, Plain word.toList)
    (names : ∀ name ∈ part.argumentNames, Plain name.toList) : Nested (part.text inChoice) := by
  match part with
  | .literal tokens caseSensitive =>
    rw [Part.literalWords] at words
    rw [Part.text]
    exact .plain (plain_tokensText inChoice words)
  | .argument name =>
    rw [Part.argumentNames, List.forall_mem_singleton] at names
    rw [Part.text]
    exact .bracket .brace (.plain names)
  | .optional body =>
    rw [Part.literalWords] at words
    rw [Part.argumentNames] at names
    rw [Part.text]
    exact .bracket .round (Grammar.nested_text body false words names)
  | .choices alternatives =>
    rw [Part.literalWords] at words
    rw [Part.argumentNames] at names
    rw [Part.text]
    exact .bracket .square (Grammar.nested_alternativesText alternatives words names)

/-- Every bracket of a grammar is closed by the one that is written for it. -/
theorem Grammar.nested_text (grammar : List Part) (inChoice : Bool)
    (words : ∀ word ∈ Grammar.literalWords grammar, Plain word.toList)
    (names : ∀ name ∈ Grammar.argumentNames grammar, Plain name.toList) :
    Nested (Grammar.text inChoice grammar) := by
  match grammar with
  | [] =>
    rw [Grammar.text]
    exact .plain plain_nil
  | part :: parts =>
    rw [Grammar.literalWords, List.forall_mem_append] at words
    rw [Grammar.argumentNames, List.forall_mem_append] at names
    have first := Part.nested_text part inChoice words.1 names.1
    have later := Grammar.nested_text parts inChoice words.2 names.2
    cases parts with
    | nil =>
      rw [Grammar.text]
      exact first
    | cons next parts =>
      rw [Grammar.text_cons_cons]
      exact first.append (nested_blank.append later)

theorem Grammar.nested_alternativesText (alternatives : List (List Part))
    (words : ∀ word ∈ Grammar.alternativeWords alternatives, Plain word.toList)
    (names : ∀ name ∈ Grammar.alternativeNames alternatives, Plain name.toList) :
    Nested (Grammar.alternativesText alternatives) := by
  match alternatives with
  | [] =>
    rw [Grammar.alternativesText]
    exact .plain plain_nil
  | alternative :: alternatives =>
    rw [Grammar.alternativeWords, List.forall_mem_append] at words
    rw [Grammar.alternativeNames, List.forall_mem_append] at names
    have first := Grammar.nested_text alternative true words.1 names.1
    have later := Grammar.nested_alternativesText alternatives words.2 names.2
    cases alternatives with
    | nil =>
      rw [Grammar.alternativesText]
      exact first
    | cons next alternatives =>
      have comma : Nested [','] := .plain ((plain_bare (by decide)).2 ⟨by decide, plain_nil⟩)
      rw [Grammar.alternativesText_cons_cons]
      exact first.append (comma.append (nested_blank.append later))

end

end Phrasebook
