import Phrasebook.Proofs.Input.Tokens

/-!
# Spelling calls with single blanks

The tokens of a call, written with one blank between any two, form the same call again, and calls written
on lines of their own form the same calls (`tokenize_respelled`). Nothing is lost because a token keeps
its spelling, and nothing is gained because a token that could take what follows it, a bare value behind
a comment, is the last one of its call: `stand_of_lexes`.
-/

namespace Phrasebook.Input

open Phrasebook.Text Phrasebook.Value

/-! ## Tokens of one call -/

/-- Every token of a call may be followed by a blank, and the last one by a line break. -/
def Stand : List (List Char) → Prop
  | [] => True
  | [token] => Stands isLineBreak token
  | token :: next :: more => Stands endsWord token ∧ Stand (next :: more)

theorem Stand.cons {token : List Char} {call : List (List Char)} (h : Stands endsWord token)
    (later : Stand call) : Stand (token :: call) := by
  cases call with
  | nil => exact h.mono endsWord_of_isLineBreak
  | cons next more => exact ⟨h, later⟩

/-- A token that reaches to the end of its line has only a separator behind it. -/
theorem Lexes.splitCalls_of_stops {text : List Char} {found : List Lexeme} (h : Lexes text found)
    (stops : Stops isLineBreak text) : ∃ calls, splitCalls found = [] :: calls := by
  cases h with
  | nil => exact ⟨[], rfl⟩
  | separator _ _ => exact ⟨_, rfl⟩
  | @blank c _ _ _ stays _ =>
    have breaks := stops c rfl
    simp [separates, breaks] at stays
  | @token before token text more stands _ _ _ =>
    obtain ⟨c, tail, rfl, noSeparator, -⟩ := stands.exists_head
    have breaks := stops c rfl
    simp [separates, breaks] at noSeparator

/-- In every piece between separators, only the last token may reach to the end of its line. -/
theorem stand_of_lexes {text : List Char} {found : List Lexeme} (h : Lexes text found) :
    ∀ call ∈ splitCalls found, Stand call := by
  induction h with
  | nil =>
    intro call member
    rw [List.mem_singleton.1 member]
    trivial
  | separator _ _ ih =>
    intro call member
    rcases List.mem_cons.1 member with rfl | later
    · trivial
    · exact ih call later
  | blank _ _ _ ih => exact ih
  | @token before token text more stands reaches stops lexes ih =>
    rw [splitCalls]
    rcases reaches with ⟨le, -⟩ | -
    · cases pieces : splitCalls more with
      | nil =>
        intro call member
        rw [List.mem_singleton.1 member]
        exact .cons (stands.mono le) trivial
      | cons piece pieces' =>
        rw [pieces] at ih
        intro call member
        rcases List.mem_cons.1 member with rfl | later
        · exact .cons (stands.mono le) (ih piece List.mem_cons_self)
        · exact ih call (List.mem_cons_of_mem piece later)
    · obtain ⟨pieces, equal⟩ := lexes.splitCalls_of_stops stops
      rw [equal] at ih ⊢
      intro call member
      rcases List.mem_cons.1 member with rfl | later
      · exact stands
      · exact ih call (List.mem_cons_of_mem [] later)

/-- One blank between tokens is enough. -/
theorem lexemes_call {call : List (List Char)} (h : Stand call) {rest : List Char}
    (stops : Stops isLineBreak rest) :
    lexemes ([' '].intercalate call ++ rest) =
      (lexemes rest).map (call.map Lexeme.token ++ ·) := by
  induction call with
  | nil => cases found : lexemes rest <;> simp [found, Except.map]
  | cons token call ih =>
    cases call with
    | nil =>
      rw [List.intercalate_singleton, h rest stops]
      rfl
    | cons next more =>
      obtain ⟨stands, later⟩ := h
      have blank : isBlank ' ' = true := by decide
      have ends : endsWord ' ' = true := by decide
      have shape : [' '].intercalate (token :: next :: more) ++ rest =
          token ++ ' ' :: ([' '].intercalate (next :: more) ++ rest) := by
        simp [List.intercalate_cons_cons]
      rw [shape, stands _ (stops_cons ends _), lexemes_blank blank (by decide), ih later]
      cases lexemes rest <;> rfl

/-! ## Calls of one input -/

/-- The lexemes of calls with a separator between any two. -/
def callLexemes : List (List (List Char)) → List Lexeme
  | [] => []
  | [call] => call.map .token
  | call :: next :: more => call.map .token ++ .separator :: callLexemes (next :: more)

theorem splitCalls_tokens (call : List (List Char)) (more : List Lexeme) {piece : List (List Char)}
    {pieces : List (List (List Char))} (h : splitCalls more = piece :: pieces) :
    splitCalls (call.map Lexeme.token ++ more) = (call ++ piece) :: pieces := by
  induction call with
  | nil => exact h
  | cons token call ih => rw [List.map_cons, List.cons_append, splitCalls, ih]; rfl

/-- Calls that hold a token are the calls that their lexemes form. -/
theorem calls_callLexemes {found : List (List (List Char))} (some : ∀ call ∈ found, call ≠ []) :
    calls (callLexemes found) = found := by
  have split : found ≠ [] → splitCalls (callLexemes found) = found := by
    clear some
    intro more
    induction found with
    | nil => exact absurd rfl more
    | cons call found ih =>
      cases found with
      | nil =>
        have one := splitCalls_tokens call [] (show splitCalls [] = [[]] from rfl)
        simpa [callLexemes] using one
      | cons next found =>
        have rest : splitCalls (.separator :: callLexemes (next :: found)) =
            [] :: next :: found := by
          rw [splitCalls, ih (List.cons_ne_nil next found)]
        rw [callLexemes, splitCalls_tokens call _ rest, List.append_nil]
  cases found with
  | nil => rfl
  | cons call found =>
    rw [calls, split (List.cons_ne_nil call found), List.filter_eq_self]
    intro call member
    simpa using some call member

theorem lexemes_calls {found : List (List (List Char))} (h : ∀ call ∈ found, Stand call) :
    lexemes (['\n'].intercalate (found.map fun call => [' '].intercalate call)) =
      .ok (callLexemes found) := by
  induction found with
  | nil => exact lexemes_nil
  | cons call found ih =>
    have stands := h call List.mem_cons_self
    cases found with
    | nil =>
      have one := lexemes_call stands (stops_nil isLineBreak)
      rw [lexemes_nil, List.append_nil] at one
      rw [List.map_singleton, List.intercalate_singleton, one]
      simp [callLexemes, Except.map]
    | cons next more =>
      have later := ih fun call member => h call (List.mem_cons_of_mem _ member)
      have breaks : isLineBreak '\n' = true := by decide
      rw [List.map_cons, List.map_cons, List.intercalate_cons_cons, List.append_assoc,
        List.singleton_append, lexemes_call stands (stops_cons breaks _),
        lexemes_separator (by decide)]
      rw [List.map_cons] at later
      rw [later]
      rfl

/-- Calls whose tokens stand in their places are spelled by their tokens. -/
theorem tokenize_of_stand {found : List (List String)} (some : ∀ call ∈ found, call ≠ [])
    (stand : ∀ call ∈ found, Stand (call.map String.toList)) :
    tokenize ("\n".intercalate (found.map fun call => " ".intercalate call)) = .ok found := by
  have spelled : ("\n".intercalate (found.map fun call => " ".intercalate call)).toList =
      ['\n'].intercalate
        ((found.map fun call => call.map String.toList).map fun call => [' '].intercalate call) := by
    rw [String.toList_intercalate, List.map_map, List.map_map]
    congr 1
    exact List.map_congr_left fun call _ => String.toList_intercalate
  have lexed := @lexemes_calls (found.map fun call => call.map String.toList) (by simpa)
  have whole : ∀ call : List String, (call.map String.toList).map String.ofList = call := by
    intro call
    simp
  rw [tokenize, readCalls, spelled, lexed]
  simp only [Except.map]
  rw [calls_callLexemes (by simpa using some), List.map_map]
  simp only [Function.comp_def, whole, List.map_id']

/-- Tokens that stand in their places are one call, spelled with single blanks. -/
theorem tokenize_call_of_stand {tokens : List String} (some : tokens ≠ [])
    (stand : Stand (tokens.map String.toList)) :
    tokenize (" ".intercalate tokens) = .ok [tokens] := by
  have one := @tokenize_of_stand [tokens] (by simpa using some) (by simpa using stand)
  rwa [List.map_singleton, String.intercalate_singleton] at one

/-- The calls of an input hold tokens, which stand in their places. -/
theorem stand_of_tokenize {input : String} {found : List (List String)}
    (h : tokenize input = .ok found) :
    ∀ call ∈ found, call ≠ [] ∧ Stand (call.map String.toList) := by
  rw [tokenize, readCalls] at h
  cases read : lexemes input.toList with
  | error fault => simp [read, Except.map] at h
  | ok lexed =>
    simp only [read, Except.map, Except.ok.injEq] at h
    subst h
    intro call member
    obtain ⟨piece, isCall, rfl⟩ := List.mem_map.1 member
    obtain ⟨isPiece, some⟩ := List.mem_filter.1 isCall
    have whole : (piece.map String.ofList).map String.toList = piece := by simp
    rw [whole]
    exact ⟨by simpa using some, stand_of_lexes (lexes_of_lexemes read) piece isPiece⟩

theorem Stand.last_of_mem {call : List (List Char)} (h : Stand call) :
    ∀ token ∈ call, Stand [token] := by
  induction call with
  | nil => intro token member; cases member
  | cons first call ih =>
    intro token member
    cases call with
    | nil =>
      rw [List.mem_singleton.1 member]
      exact h
    | cons next more =>
      rcases List.mem_cons.1 member with rfl | later
      · exact h.1.mono endsWord_of_isLineBreak
      · exact ih h.2 token later

theorem tokenizeSingle_of_tokenize {input : String} {call : List String}
    (h : tokenize input = .ok [call]) : tokenizeSingle input = .ok call := by
  rw [tokenizeSingle, h]

/-- **Respelling.** The calls of an input, spelled with single blanks on lines of their own, are the same
calls; so is every call by itself, and every token is a call of one token. -/
theorem tokenize_respelled {input : String} {found : List (List String)}
    (h : tokenize input = .ok found) :
    tokenize ("\n".intercalate (found.map fun call => " ".intercalate call)) = .ok found ∧
    (∀ call ∈ found, tokenizeSingle (" ".intercalate call) = .ok call) ∧
    ∀ call ∈ found, ∀ token ∈ call, tokenizeSingle token = .ok [token] := by
  have stand := stand_of_tokenize h
  have alone : ∀ call : List String, call ≠ [] → Stand (call.map String.toList) →
      tokenizeSingle (" ".intercalate call) = .ok call := by
    intro call some stands
    have one := @tokenize_of_stand [call] (by simpa using some) (by simpa using stands)
    rw [List.map_singleton, String.intercalate_singleton] at one
    exact tokenizeSingle_of_tokenize one
  refine ⟨tokenize_of_stand (fun call member => (stand call member).1)
    (fun call member => (stand call member).2), ?_, ?_⟩
  · intro call member
    exact alone call (stand call member).1 (stand call member).2
  · intro call member token inCall
    have last := (stand call member).2.last_of_mem token.toList (List.mem_map_of_mem inCall)
    have one := alone [token] (List.cons_ne_nil token []) last
    rwa [String.intercalate_singleton] at one

theorem tokenize_respelled_comment :
    tokenize "a'b\n'{x:[1]};# c\n d  " = .ok [["a", "'b\n'", "{x:[1]}"], ["# c\n d  "]] ∧
    tokenize "a 'b\n' {x:[1]}\n# c\n d  " = .ok [["a", "'b\n'", "{x:[1]}"], ["# c\n d  "]] := by
  have read : tokenize "a'b\n'{x:[1]};# c\n d  " =
      .ok [["a", "'b\n'", "{x:[1]}"], ["# c\n d  "]] := by
    simp [tokenize, readCalls, lexemes_cons, lexemes_nil, startsValue, separates, isLineBreak,
      isBlank, readWord, endsWord, readElement_eq, skipTrivia, skipLineComment, readQuoted_cons,
      readItems_eq, readMembers_eq, readName, readNameChars_cons, breaksName, readBare, endsBare,
      trimEnd, calls, splitCalls, consToken, Except.map]
  have again := (tokenize_respelled read).1
  have spelled : "\n".intercalate ([["a", "'b\n'", "{x:[1]}"], ["# c\n d  "]].map
      fun call => " ".intercalate call) = "a 'b\n' {x:[1]}\n# c\n d  " := by decide
  exact ⟨read, spelled ▸ again⟩

end Phrasebook.Input
