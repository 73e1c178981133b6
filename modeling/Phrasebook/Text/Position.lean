/-!
# Positions in a text

A `Position` is a line and a column, both counted from one. `Position.after` gives the place that
follows a text: its line is one more than the line feeds in the text, and its column one more than
the characters behind the last of them (`Position.line_after`, `Position.column_after`).
-/

namespace Phrasebook.Text

/-- A place in a text. -/
structure Position where
  line : Nat
  column : Nat
  deriving DecidableEq, Repr

namespace Position

/-- The place where a text begins. -/
def start : Position := ⟨1, 1⟩

/-- The place after one more character: only a line feed begins a line. -/
def step (p : Position) (c : Char) : Position :=
  if c = '\n' then ⟨p.line + 1, 1⟩ else ⟨p.line, p.column + 1⟩

/-- The place that follows `text`. -/
def after (text : List Char) : Position :=
  text.foldl step start

/-- The line and the column, with a colon between them. -/
def render (p : Position) : String :=
  toString p.line ++ ":" ++ toString p.column

theorem after_append_singleton (text : List Char) (c : Char) :
    after (text ++ [c]) = (after text).step c := by
  simp [after, List.foldl_append]

/-- The line of the place after a text counts the line feeds of the text. -/
theorem line_after (text : List Char) : (after text).line = 1 + text.count '\n' := by
  suffices general : ∀ p : Position, (text.foldl step p).line = p.line + text.count '\n' by
    simpa [after, start] using general start
  induction text with
  | nil => simp
  | cons c rest ih =>
    intro p
    rw [List.foldl_cons, ih]
    by_cases h : c = '\n' <;> simp [step, h, Nat.add_comm, Nat.add_left_comm]

/-- The column of the place after a text counts the characters behind its last line feed. -/
theorem column_after (text : List Char) :
    (after text).column = 1 + (text.reverse.takeWhile (· ≠ '\n')).length := by
  suffices general : ∀ reversed : List Char,
      (after reversed.reverse).column = 1 + (reversed.takeWhile (· ≠ '\n')).length by
    simpa using general text.reverse
  intro reversed
  induction reversed with
  | nil => simp [after, start]
  | cons c rest ih =>
    rw [List.reverse_cons, after_append_singleton]
    by_cases h : c = '\n'
    · simp [step, h]
    · simp [step, h, ih, Nat.add_comm]

end Position

end Phrasebook.Text
