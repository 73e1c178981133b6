import Phrasebook.Proofs.Grammar.Marks

/-!
# Pieces of a choice

`splitChoices` cuts the contents of a choice at the bare commas outside brackets and takes the backslash off
the escaped ones there. `joinPieces` puts pieces together again: `escapeOutside` escapes the commas of a piece
outside brackets, and a comma stands between any two. The two functions are inverse to each other on what
`splitChoices` yields, which `Pieces` describes: `pieces_splitChoices` and `splitChoices_joinPieces`. Texts that
are pieces in every place, `IsPiece`, are found again whatever their number and order: `splitChoices_intercalate`.
-/

namespace Phrasebook

/-! ## Depth in brackets of any kind -/

/-- The depth behind a character. -/
def charDepth (depth : Nat) (c : Char) : Nat :=
  if opensBracket c then depth + 1 else if closesBracket c then depth - 1 else depth

/-- The depth behind marks. -/
def depthBehind : Nat → List Mark → Nat
  | depth, [] => depth
  | depth, .comma _ :: more => depthBehind depth more
  | depth, .bracket c :: more => depthBehind (charDepth depth c) more

/-- No comma outside brackets is escaped. -/
def Clear : Nat → List Mark → Prop
  | _, [] => True
  | depth, .comma escaped :: more => (escaped = true → depth ≠ 0) ∧ Clear depth more
  | depth, .bracket c :: more => Clear (charDepth depth c) more

instance decidableClear (depth : Nat) (more : List Mark) : Decidable (Clear depth more) :=
  match more with
  | [] => inferInstanceAs (Decidable True)
  | .comma escaped :: more =>
    have := decidableClear depth more
    inferInstanceAs (Decidable ((escaped = true → depth ≠ 0) ∧ Clear depth more))
  | .bracket c :: more => decidableClear (charDepth depth c) more

/-- Puts a backslash in front of the bare commas outside brackets. -/
def escapeOutside (depth : Nat) : List Char → List Char
  | [] => []
  | [c] => if c = ',' ∧ depth = 0 then ['\\', c] else [c]
  | c :: d :: text =>
    if c = '\\' then c :: d :: escapeOutside depth text
    else if c = ',' ∧ depth = 0 then '\\' :: c :: escapeOutside depth (d :: text)
    else c :: escapeOutside (charDepth depth c) (d :: text)

theorem charDepth_of_not_isBracket {c : Char} (h : isBracket c = false) (depth : Nat) :
    charDepth depth c = depth := by
  rw [isBracket, Bool.or_eq_false_iff] at h
  simp [charDepth, h]

theorem depthBehind_bare (depth : Nat) (c : Char) (more : List Mark) :
    depthBehind depth (bareMark c ++ more) = depthBehind (charDepth depth c) more := by
  rw [bareMark]
  split
  · next comma =>
    rw [charDepth_of_not_isBracket (by rw [comma]; decide)]
    rfl
  · split
    · rfl
    · next bracket => rw [charDepth_of_not_isBracket (by simpa using bracket), List.nil_append]

theorem depthBehind_escaped (depth : Nat) (c : Char) (more : List Mark) :
    depthBehind depth (escapedMark c ++ more) = depthBehind depth more := by
  rw [escapedMark]
  split <;> rfl

theorem clear_bare (depth : Nat) (c : Char) (more : List Mark) :
    Clear depth (bareMark c ++ more) ↔ Clear (charDepth depth c) more := by
  rw [bareMark]
  split
  · next comma =>
    rw [charDepth_of_not_isBracket (by rw [comma]; decide)]
    simp [Clear]
  · split
    · rfl
    · next bracket => rw [charDepth_of_not_isBracket (by simpa using bracket), List.nil_append]

theorem clear_escaped (depth : Nat) (c : Char) (more : List Mark) :
    Clear depth (escapedMark c ++ more) ↔ (c = ',' → depth ≠ 0) ∧ Clear depth more := by
  rw [escapedMark]
  split
  · next comma => simp [Clear, comma]
  · next comma => simp [comma]

theorem escapeOutside_comma (text : List Char) :
    escapeOutside 0 (',' :: text) = '\\' :: ',' :: escapeOutside 0 text := by
  cases text with
  | nil => rfl
  | cons d text => rw [escapeOutside, if_neg (by decide), if_pos ⟨rfl, rfl⟩]

theorem escapeOutside_bare {depth : Nat} {c : Char} (plain : c ≠ '\\')
    (stays : ¬ (c = ',' ∧ depth = 0)) (text : List Char) :
    escapeOutside depth (c :: text) = c :: escapeOutside (charDepth depth c) text := by
  cases text with
  | nil => simp only [escapeOutside, if_neg stays]
  | cons d text => rw [escapeOutside, if_neg plain, if_neg stays]

theorem escapeOutside_escaped (depth : Nat) (c : Char) (text : List Char) :
    escapeOutside depth ('\\' :: c :: text) = '\\' :: c :: escapeOutside depth text := by
  rw [escapeOutside, if_pos rfl]

theorem splitChoices_comma (text : List Char) :
    splitChoices 0 (',' :: text) = [] :: splitChoices 0 text := by
  cases text with
  | nil => rfl
  | cons d text => rw [splitChoices, if_neg (by decide), if_pos ⟨rfl, rfl⟩]

theorem splitChoices_bare {depth : Nat} {c : Char} (plain : c ≠ '\\')
    (stays : ¬ (c = ',' ∧ depth = 0)) (text : List Char) :
    splitChoices depth (c :: text) = consPiece [c] (splitChoices (charDepth depth c) text) := by
  cases text with
  | nil => simp only [splitChoices, if_neg stays, consPiece, List.append_nil]
  | cons d text => rw [splitChoices, if_neg plain, if_neg stays]; rfl

theorem splitChoices_escaped (depth : Nat) (c : Char) (text : List Char) :
    splitChoices depth ('\\' :: c :: text) =
      consPiece (if c = ',' ∧ depth = 0 then [c] else ['\\', c]) (splitChoices depth text) := by
  rw [splitChoices, if_pos rfl]
  split <;> rfl

theorem consPiece_append (front more : List Char) (pieces : List (List Char)) :
    consPiece front (consPiece more pieces) = consPiece (front ++ more) pieces := by
  cases pieces with
  | nil => rfl
  | cons piece pieces => simp [consPiece]

/-! ## Joining pieces -/

/-- Pieces in which no comma outside brackets is escaped; brackets are closed in all but the last one. -/
inductive Pieces : Nat → List (List Char) → Prop
  | last {depth : Nat} {piece : List Char} :
    Paired piece → Clear depth (marks piece) → Pieces depth [piece]
  | cons {depth : Nat} {piece next : List Char} {more : List (List Char)} :
    Paired piece → Clear depth (marks piece) → depthBehind depth (marks piece) = 0 →
    Pieces 0 (next :: more) → Pieces depth (piece :: next :: more)

/-- Texts that are pieces in every place. -/
structure IsPiece (text : List Char) : Prop where
  paired : Paired text
  clear : Clear 0 (marks text)
  closed : depthBehind 0 (marks text) = 0

theorem pieces_of_forall {pieces : List (List Char)} (some : pieces ≠ [])
    (h : ∀ piece ∈ pieces, IsPiece piece) : Pieces 0 pieces := by
  induction pieces with
  | nil => exact absurd rfl some
  | cons piece pieces ih =>
    obtain ⟨first, later⟩ := List.forall_mem_cons.1 h
    cases pieces with
    | nil => exact .last first.paired first.clear
    | cons next more =>
      exact .cons first.paired first.clear first.closed (ih (List.cons_ne_nil next more) later)

theorem IsPiece.cons_blank {text : List Char} (h : IsPiece text) : IsPiece (' ' :: text) := by
  have same : marks (' ' :: text) = marks text := by
    rw [marks_bare (by decide), bareMark_of_isBlank (by decide), List.nil_append]
  exact ⟨.bare (by decide) h.paired, by rw [same]; exact h.clear, by rw [same]; exact h.closed⟩

/-- Pieces with commas between them, and a backslash in front of the bare commas that would divide them
otherwise. -/
def joinPieces : Nat → List (List Char) → List Char
  | _, [] => []
  | depth, [piece] => escapeOutside depth piece
  | depth, piece :: next :: more => escapeOutside depth piece ++ ',' :: joinPieces 0 (next :: more)

theorem Pieces.paired {depth : Nat} {pieces : List (List Char)} (h : Pieces depth pieces) :
    ∀ piece ∈ pieces, Paired piece := by
  induction h with
  | last paired _ =>
    intro piece member
    rw [List.mem_singleton.1 member]
    exact paired
  | cons paired _ _ _ ih =>
    intro piece member
    rcases List.mem_cons.1 member with rfl | later
    · exact paired
    · exact ih piece later

/-- What a character or an escape in front of a piece does to it; `written` is how it is written. -/
structure Step (depth depth' : Nat) (front written : List Char) : Prop where
  paired : ∀ {piece}, Paired piece → Paired (front ++ piece)
  clear : ∀ {piece}, Clear depth' (marks piece) → Clear depth (marks (front ++ piece))
  depthBehind_eq : ∀ piece,
    depthBehind depth (marks (front ++ piece)) = depthBehind depth' (marks piece)
  escape_eq : ∀ piece, escapeOutside depth (front ++ piece) = written ++ escapeOutside depth' piece

theorem step_bare {depth : Nat} {c : Char} (plain : c ≠ '\\') (stays : ¬ (c = ',' ∧ depth = 0)) :
    Step depth (charDepth depth c) [c] [c] where
  paired := .bare plain
  clear h := by rw [List.singleton_append, marks_bare plain, clear_bare]; exact h
  depthBehind_eq piece := by rw [List.singleton_append, marks_bare plain, depthBehind_bare]
  escape_eq piece := escapeOutside_bare plain stays piece

/-- A comma outside brackets is written with a backslash. -/
theorem step_comma : Step 0 0 [','] ['\\', ','] where
  paired := .bare (by decide)
  clear h := by rw [List.singleton_append, marks_bare (by decide), clear_bare]; exact h
  depthBehind_eq piece := by
    rw [List.singleton_append, marks_bare (by decide), depthBehind_bare]
    rfl
  escape_eq piece := escapeOutside_comma piece

theorem step_escaped {depth : Nat} {c : Char} (stays : ¬ (c = ',' ∧ depth = 0)) :
    Step depth depth ['\\', c] ['\\', c] where
  paired := .escaped
  clear h := by
    rw [List.cons_append, List.singleton_append, marks_escaped, clear_escaped]
    exact ⟨fun comma outside => stays ⟨comma, outside⟩, h⟩
  depthBehind_eq piece := by
    rw [List.cons_append, List.singleton_append, marks_escaped, depthBehind_escaped]
  escape_eq piece := escapeOutside_escaped depth c piece

theorem Step.pieces {depth depth' : Nat} {front written : List Char}
    (h : Step depth depth' front written) {pieces : List (List Char)} (isPieces : Pieces depth' pieces) :
    Pieces depth (consPiece front pieces) := by
  cases isPieces with
  | last paired clear => exact .last (h.paired paired) (h.clear clear)
  | cons paired clear closed later =>
    exact .cons (h.paired paired) (h.clear clear) (by rw [h.depthBehind_eq, closed]) later

theorem Step.joinPieces_eq {depth depth' : Nat} {front written : List Char}
    (h : Step depth depth' front written) {pieces : List (List Char)} (some : pieces ≠ []) :
    joinPieces depth (consPiece front pieces) = written ++ joinPieces depth' pieces := by
  match pieces with
  | [] => exact absurd rfl some
  | [piece] => exact h.escape_eq piece
  | piece :: next :: more =>
    rw [consPiece, joinPieces, joinPieces, h.escape_eq, List.append_assoc]

/-- What a paired text is divided into, and how it is put together again. -/
theorem pieces_splitChoices {text : List Char} (h : Paired text) (depth : Nat) :
    Pieces depth (splitChoices depth text) ∧ joinPieces depth (splitChoices depth text) = text := by
  induction h generalizing depth with
  | nil => exact ⟨.last .nil trivial, rfl⟩
  | @bare c text plain _ ih =>
    by_cases divides : c = ',' ∧ depth = 0
    · obtain ⟨rfl, rfl⟩ := divides
      obtain ⟨isPieces, joined⟩ := ih 0
      rw [splitChoices_comma]
      cases pieces : splitChoices 0 text with
      | nil => exact absurd pieces (splitChoices_ne_nil 0 text)
      | cons next more =>
        rw [pieces] at isPieces joined
        exact ⟨.cons .nil trivial rfl isPieces, by rw [joinPieces, joined]; rfl⟩
    · obtain ⟨isPieces, joined⟩ := ih (charDepth depth c)
      have step := step_bare plain divides
      rw [splitChoices_bare plain divides]
      exact ⟨step.pieces isPieces, by
        rw [step.joinPieces_eq (splitChoices_ne_nil _ text), joined]; rfl⟩
  | @escaped c text _ ih =>
    obtain ⟨isPieces, joined⟩ := ih depth
    rw [splitChoices_escaped]
    by_cases outside : c = ',' ∧ depth = 0
    · rw [if_pos outside]
      obtain ⟨rfl, rfl⟩ := outside
      exact ⟨step_comma.pieces isPieces, by
        rw [step_comma.joinPieces_eq (splitChoices_ne_nil _ text), joined]; rfl⟩
    · have step := step_escaped outside
      rw [if_neg outside]
      exact ⟨step.pieces isPieces, by
        rw [step.joinPieces_eq (splitChoices_ne_nil _ text), joined]; rfl⟩

/-- A piece is taken from the front of a text as far as its own brackets and commas go. -/
theorem splitChoices_append {piece : List Char} (paired : Paired piece) {depth : Nat}
    (clear : Clear depth (marks piece)) (rest : List Char) :
    splitChoices depth (escapeOutside depth piece ++ rest) =
      consPiece piece (splitChoices (depthBehind depth (marks piece)) rest) := by
  induction paired generalizing depth with
  | nil =>
    cases pieces : splitChoices depth rest with
    | nil => exact absurd pieces (splitChoices_ne_nil depth rest)
    | cons piece more =>
      simp only [escapeOutside, List.nil_append, marks, depthBehind, pieces, consPiece]
  | @bare c piece plain _ ih =>
    rw [marks_bare plain, clear_bare] at clear
    rw [marks_bare plain, depthBehind_bare]
    by_cases outside : c = ',' ∧ depth = 0
    · obtain ⟨rfl, rfl⟩ := outside
      have same : charDepth 0 ',' = 0 := by decide
      rw [same] at clear ⊢
      rw [escapeOutside_comma, List.cons_append, List.cons_append, splitChoices_escaped,
        if_pos ⟨rfl, rfl⟩, ih clear, consPiece_append]
      rfl
    · rw [escapeOutside_bare plain outside, List.cons_append, splitChoices_bare plain outside,
        ih clear, consPiece_append]
      rfl
  | @escaped c piece _ ih =>
    rw [marks_escaped, clear_escaped] at clear
    have stays : ¬ (c = ',' ∧ depth = 0) := fun outside => clear.1 outside.1 outside.2
    rw [marks_escaped, depthBehind_escaped, escapeOutside_escaped, List.cons_append,
      List.cons_append, splitChoices_escaped, if_neg stays, ih clear.2, consPiece_append]
    rfl

/-- Pieces are divided as they were joined. -/
theorem splitChoices_joinPieces {depth : Nat} {pieces : List (List Char)} (h : Pieces depth pieces) :
    splitChoices depth (joinPieces depth pieces) = pieces := by
  induction h with
  | @last depth piece paired clear =>
    have alone := splitChoices_append paired clear []
    rw [List.append_nil, splitChoices, consPiece, List.append_nil] at alone
    exact alone
  | cons paired clear closed _ ih =>
    rw [joinPieces, splitChoices_append paired clear, closed, splitChoices_comma, ih, consPiece,
      List.append_nil]

theorem joinPieces_zero (pieces : List (List Char)) :
    joinPieces 0 pieces = [','].intercalate (pieces.map (escapeOutside 0)) := by
  induction pieces with
  | nil => rfl
  | cons piece pieces ih =>
    cases pieces with
    | nil => rw [joinPieces, List.map_singleton, List.intercalate_singleton]
    | cons next more =>
      rw [joinPieces, ih, List.map_cons, List.map_cons, List.map_cons, List.intercalate_cons_cons,
        List.append_assoc, List.singleton_append]

/-- **Escaped commas.** Texts whose escapes are whole, whose brackets are closed and which escape no comma
outside brackets are found again when each is written with a backslash in front of its bare commas outside
brackets and a comma is put between any two. -/
theorem splitChoices_intercalate {pieces : List (List Char)} (some : pieces ≠ [])
    (each : ∀ piece ∈ pieces, IsPiece piece) :
    splitChoices 0 ([','].intercalate (pieces.map (escapeOutside 0))) = pieces := by
  have isPieces : Pieces 0 pieces := pieces_of_forall some each
  rw [← joinPieces_zero]
  exact splitChoices_joinPieces isPieces

/-- A comma behind two backslashes, which is bare; commas in brackets, bare and escaped; and an escaped
bracket, which opens nothing. -/
theorem splitChoices_intercalate_nested :
    let pieces := ["a\\\\,b".toList, "(c,[d\\,])".toList, "\\(,".toList]
    (∀ piece ∈ pieces, IsPiece piece) ∧
      [','].intercalate (pieces.map (escapeOutside 0)) =
        "a\\\\\\,b,(c,[d\\,]),\\(\\,".toList ∧
      splitChoices 0 "a\\\\\\,b,(c,[d\\,]),\\(\\,".toList = pieces := by
  intro pieces
  have each : ∀ piece ∈ pieces, IsPiece piece := by
    refine List.forall_mem_cons.2 ⟨?_, List.forall_mem_cons.2 ⟨?_, List.forall_mem_singleton.2 ?_⟩⟩
    · exact ⟨paired_of_getLast? rfl (by decide), by decide, rfl⟩
    · exact ⟨paired_of_getLast? rfl (by decide), by decide, rfl⟩
    · exact ⟨paired_of_getLast? rfl (by decide), by decide, rfl⟩
  have written : [','].intercalate (pieces.map (escapeOutside 0)) =
      "a\\\\\\,b,(c,[d\\,]),\\(\\,".toList := by decide
  refine ⟨each, written, ?_⟩
  rw [← written]
  exact splitChoices_intercalate (List.cons_ne_nil _ _) each

end Phrasebook
