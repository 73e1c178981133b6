import Phrasebook.Proofs.Value.Trivia
import Phrasebook.Value.Reader

/-!
# Quotations and names by themselves

A reader that has taken a value from the front of a text takes the same from every text that begins
with the same characters: `Takes`. It holds of the readers of escapes, quotations and names, since each of
them ends with characters that it takes (`takes_of_readQuoted`, `takes_of_readName`).
-/

namespace Phrasebook.Value

open Phrasebook.Text

/-- Whatever stands behind `taken`, the reader takes it for `value`. -/
def Takes {α : Type} (read : List Char → Except Fault (α × List Char)) (taken : List Char)
    (value : α) : Prop :=
  ∀ rest, read (taken ++ rest) = .ok (value, rest)

theorem getLast?_append_eq_some {taken : List Char} {c : Char} (front : List Char)
    (h : taken.getLast? = some c) : (front ++ taken).getLast? = some c := by
  rw [List.getLast?_append, h, Option.some_or]

theorem getLast?_cons_eq_some {taken : List Char} {c : Char} (d : Char)
    (h : taken.getLast? = some c) : (d :: taken).getLast? = some c :=
  getLast?_append_eq_some [d] h

/-! ## Quotations and names -/

theorem takes_of_readHex {count start value : Nat} {text rest : List Char}
    (h : readHex count start text = .ok (value, rest)) :
    ∃ taken, text = taken ++ rest ∧ Takes (readHex count start) taken value := by
  induction count generalizing start text with
  | zero =>
    cases h
    exact ⟨[], rfl, fun _ => rfl⟩
  | succ count ih =>
    cases text with
    | nil => simp [readHex] at h
    | cons c text =>
      rw [readHex] at h
      cases digit : hexValue? c with
      | none => simp [digit] at h
      | some d =>
        simp only [digit] at h
        obtain ⟨taken, rfl, takes⟩ := ih h
        refine ⟨c :: taken, rfl, fun rest => ?_⟩
        rw [List.cons_append, readHex]
        simp only [digit]
        exact takes rest

theorem takes_of_readLowSurrogate {high : Nat} {text rest : List Char} {c : Char}
    (h : readLowSurrogate high text = .ok (c, rest)) :
    ∃ taken, text = taken ++ rest ∧ Takes (readLowSurrogate high) taken c := by
  unfold readLowSurrogate at h
  split at h
  · next d e text =>
    split at h
    · next escape =>
      cases read : readHex 4 0 text with
      | error fault => simp [read] at h
      | ok result =>
        obtain ⟨low, behind⟩ := result
        simp only [read] at h
        split at h
        · next isLow =>
          obtain ⟨rfl, rfl⟩ := Prod.mk.inj (Except.ok.inj h)
          obtain ⟨taken, rfl, takes⟩ := takes_of_readHex read
          refine ⟨d :: e :: taken, rfl, fun rest => ?_⟩
          rw [List.cons_append, List.cons_append, readLowSurrogate, if_pos escape, takes rest]
          simp only [isLow, if_true]
        · simp at h
    · simp at h
  · simp at h

theorem takes_of_readCodeEscape {text rest : List Char} {c : Char}
    (h : readCodeEscape text = .ok (c, rest)) :
    ∃ taken, text = taken ++ rest ∧ Takes readCodeEscape taken c := by
  unfold readCodeEscape at h
  cases read : readHex 4 0 text with
  | error fault => simp [read] at h
  | ok result =>
    obtain ⟨unit, behind⟩ := result
    simp only [read] at h
    obtain ⟨digits, rfl, takesDigits⟩ := takes_of_readHex read
    split at h
    · next isHigh =>
      obtain ⟨low, rfl, takesLow⟩ := takes_of_readLowSurrogate h
      refine ⟨digits ++ low, by rw [List.append_assoc], fun rest => ?_⟩
      rw [readCodeEscape, List.append_assoc, takesDigits]
      simp only [isHigh, if_true]
      exact takesLow rest
    · next notHigh =>
      split at h
      · simp at h
      · next notLow =>
        cases h
        refine ⟨digits, rfl, fun rest => ?_⟩
        rw [readCodeEscape, takesDigits]
        simp only [notHigh, notLow, if_false, Bool.false_eq_true]

theorem takes_of_readEscape {text rest : List Char} {c : Char}
    (h : readEscape text = .ok (c, rest)) :
    ∃ taken, text = taken ++ rest ∧ Takes readEscape taken c := by
  cases text with
  | nil => simp [readEscape] at h
  | cons d text =>
    rw [readEscape] at h
    split at h
    · next code =>
      obtain ⟨taken, rfl, takes⟩ := takes_of_readCodeEscape h
      refine ⟨d :: taken, rfl, fun rest => ?_⟩
      rw [List.cons_append, readEscape, if_pos code, takes rest]
    · next plain =>
      cases h
      exact ⟨[d], rfl, fun rest => by rw [List.singleton_append, readEscape, if_neg plain]⟩

/-- The place where the quotation began matters for faults only. -/
theorem takes_of_readQuoted {quote : Char} {opening text content rest : List Char}
    (h : readQuoted quote opening text = .ok (content, rest)) :
    ∃ taken, text = taken ++ rest ∧ taken.getLast? = some quote ∧
      ∀ opening', Takes (readQuoted quote opening') taken content := by
  fun_induction readQuoted quote opening text generalizing content with
  | case1 => simp at h
  | case2 tail =>
    cases h
    exact ⟨[quote], rfl, rfl, fun opening' rest => by
      rw [List.singleton_append, readQuoted_cons, if_pos rfl]⟩
  | case3 => simp at h
  | case4 => simp at h
  | case5 tail meaning behind escape _ content rest' later different ih =>
    cases h
    obtain ⟨front, rfl, takesEscape⟩ := takes_of_readEscape escape
    obtain ⟨back, rfl, last, takesContent⟩ := ih later
    refine ⟨'\\' :: (front ++ back), by simp,
      getLast?_append_eq_some ('\\' :: front) last, fun opening' rest => ?_⟩
    rw [List.cons_append, readQuoted_cons, if_neg different, if_pos rfl, List.append_assoc,
      takesEscape]
    simp only [takesContent opening' rest]
  | case6 => simp at h
  | case7 c tail different plain content rest' later ih =>
    cases h
    obtain ⟨back, rfl, last, takesContent⟩ := ih later
    refine ⟨c :: back, rfl, getLast?_cons_eq_some c last, fun opening' rest => ?_⟩
    rw [List.cons_append, readQuoted_cons, if_neg different, if_neg plain]
    simp only [takesContent opening' rest]

/-- The characters of a name end in front of a colon. -/
theorem takes_of_readNameChars {text name rest : List Char} {d : Char}
    (h : readNameChars text = .ok (name, d :: rest)) :
    d = ':' ∧ ∃ taken, text = taken ++ ':' :: rest ∧
      ∀ rest, readNameChars (taken ++ ':' :: rest) = .ok (name, ':' :: rest) := by
  fun_induction readNameChars text generalizing name with
  | case1 => simp at h
  | case2 tail =>
    cases h
    exact ⟨rfl, [], rfl, fun rest => by rw [List.nil_append, readNameChars_cons, if_pos rfl]⟩
  | case3 => simp at h
  | case4 => simp at h
  | case5 => simp at h
  | case6 tail meaning behind escape _ name rest' later different belongs ih =>
    cases h
    obtain ⟨front, rfl, takesEscape⟩ := takes_of_readEscape escape
    obtain ⟨colon, back, rfl, takesName⟩ := ih later
    refine ⟨colon, '\\' :: (front ++ back), by simp, fun rest => ?_⟩
    rw [List.cons_append, readNameChars_cons, if_neg different, if_neg belongs, if_pos rfl,
      List.append_assoc, takesEscape]
    simp only [takesName rest]
  | case7 => simp at h
  | case8 c tail different belongs plain name rest' later ih =>
    cases h
    obtain ⟨colon, back, rfl, takesName⟩ := ih later
    refine ⟨colon, c :: back, rfl, fun rest => ?_⟩
    rw [List.cons_append, readNameChars_cons, if_neg different, if_neg belongs, if_neg plain]
    simp only [takesName rest]

/-- A name that is not at the end of the text ends by itself or in front of a colon, so one more
character behind it is enough to know. -/
theorem takes_of_readName {text name front rest : List Char} (more : front ≠ [])
    (h : readName text = .ok (name, front ++ rest)) :
    ∃ taken, taken ≠ [] ∧ text = taken ++ (front ++ rest) ∧
      ∀ rest, readName (taken ++ (front ++ rest)) = .ok (name, front ++ rest) := by
  cases text with
  | nil => simp [readName] at h
  | cons c tail =>
    rw [readName] at h
    split at h
    · next quotes =>
      obtain ⟨taken, rfl, -, takes⟩ := takes_of_readQuoted h
      refine ⟨c :: taken, List.cons_ne_nil c taken, rfl, fun rest => ?_⟩
      rw [List.cons_append, readName, if_pos quotes]
      exact takes _ _
    · next bare =>
      cases read : readNameChars (c :: tail) with
      | error fault => simp [read] at h
      | ok result =>
        obtain ⟨chars, behind⟩ := result
        simp only [read] at h
        split at h
        · simp at h
        · next named =>
          obtain ⟨rfl, rfl⟩ := Prod.mk.inj (Except.ok.inj h)
          cases front with
          | nil => exact absurd rfl more
          | cons d front =>
            obtain ⟨rfl, taken, equal, takes⟩ := takes_of_readNameChars read
            cases taken with
            | nil =>
              have nothing := takes rest
              rw [List.nil_append, readNameChars_cons, if_pos rfl] at nothing
              cases nothing
              simp [trimEnd] at named
            | cons e taken =>
              refine ⟨e :: taken, List.cons_ne_nil e taken, equal, fun rest => ?_⟩
              obtain ⟨rfl, -⟩ := List.cons.inj equal
              rw [List.cons_append, List.cons_append, readName, if_neg bare, ← List.cons_append,
                takes (front ++ rest)]
              simp only [named, if_false, Bool.false_eq_true]

end Phrasebook.Value
