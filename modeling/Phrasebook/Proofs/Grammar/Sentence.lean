import Phrasebook.Proofs.Grammar.Language
import Phrasebook.Proofs.Input.Respelling

/-!
# The sentence of a grammar

Every grammar has a sentence that says all of it: the words of its literals in order, with every optional
part written out, the first alternative of every choice, and a token in the place of every argument.
`Grammar.slots` lists its places, and `Fills` relates them to the tokens in them and to what these are
bound to.

A part that fits is taken, and the first alternative that fits, so that the sentence is matched part by
part, whatever stands behind it: `Grammar.match?_of_fills`. For this no more is asked than that there is
something to say (`Grammar.Sayable`).
-/

namespace Phrasebook

open Phrasebook.Input

/-- A place in a sentence: for a word of a literal, or for the token of an argument. -/
inductive Slot where
  | word (text : String)
  | gap (name : String)

mutual

/-- The places in the sentence of a part. -/
def Part.slots : Part → List Slot
  | .literal tokens _ => tokens.map .word
  | .argument name => [.gap name]
  | .optional body => Grammar.slots body
  | .choices alternatives => Grammar.firstSlots alternatives

/-- The places in the sentence of a grammar. -/
def Grammar.slots : List Part → List Slot
  | [] => []
  | part :: parts => part.slots ++ Grammar.slots parts

/-- The places in the sentence of the first alternative. -/
def Grammar.firstSlots : List (List Part) → List Slot
  | [] => []
  | alternative :: _ => Grammar.slots alternative

end

/-- Tokens in the places of a sentence, and what they are bound to, in order. -/
inductive Fills : List Slot → List String → List (String × String) → Prop
  | nil : Fills [] [] []
  | word (text : String) {slots : List Slot} {tokens : List String} {bound : List (String × String)} :
    Fills slots tokens bound → Fills (.word text :: slots) (text :: tokens) bound
  | gap (name token : String) {slots : List Slot} {tokens : List String}
    {bound : List (String × String)} :
    Fills slots tokens bound → Fills (.gap name :: slots) (token :: tokens) ((name, token) :: bound)

namespace Fills

variable {slots more : List Slot} {tokens : List String} {bound : List (String × String)}

/-- The places of a sentence may be divided. -/
theorem split (h : Fills (slots ++ more) tokens bound) :
    ∃ front back bound' later, tokens = front ++ back ∧ bound = bound' ++ later ∧
      Fills slots front bound' ∧ Fills more back later := by
  induction slots generalizing tokens bound with
  | nil => exact ⟨[], tokens, [], bound, rfl, rfl, .nil, h⟩
  | cons slot slots ih =>
    cases h with
    | word text rest =>
      obtain ⟨front, back, bound', later, rfl, rfl, first, second⟩ := ih rest
      exact ⟨text :: front, back, bound', later, rfl, rfl, .word text first, second⟩
    | gap name token rest =>
      obtain ⟨front, back, bound', later, rfl, rfl, first, second⟩ := ih rest
      exact ⟨token :: front, back, (name, token) :: bound', later, rfl, rfl, .gap name token first,
        second⟩

/-- Words fill their own places. -/
theorem eq_of_words {texts : List String} (h : Fills (texts.map .word) tokens bound) :
    tokens = texts ∧ bound = [] := by
  induction texts generalizing tokens with
  | nil =>
    cases h
    exact ⟨rfl, rfl⟩
  | cons text texts ih =>
    cases h with
    | word _ rest =>
      obtain ⟨rfl, rfl⟩ := ih rest
      exact ⟨rfl, rfl⟩

theorem ne_nil (h : Fills slots tokens bound) (some : slots ≠ []) : tokens ≠ [] := by
  cases h with
  | nil => exact absurd rfl some
  | word => exact List.cons_ne_nil _ _
  | gap => exact List.cons_ne_nil _ _

/-- What holds of the words and of the bound tokens holds of the sentence. -/
theorem forall_tokens {P : String → Prop} (h : Fills slots tokens bound)
    (words : ∀ text, .word text ∈ slots → P text) (gaps : ∀ entry ∈ bound, P entry.2) :
    ∀ token ∈ tokens, P token := by
  induction h with
  | nil => intro token member; cases member
  | word text _ ih =>
    have later := ih (fun text member => words text (List.mem_cons_of_mem _ member)) gaps
    exact List.forall_mem_cons.2 ⟨words text List.mem_cons_self, later⟩
  | gap name token _ ih =>
    have later := ih (fun text member => words text (List.mem_cons_of_mem _ member))
      fun entry member => gaps entry (List.mem_cons_of_mem _ member)
    exact List.forall_mem_cons.2 ⟨gaps (name, token) List.mem_cons_self, later⟩

end Fills

/-! ## Grammars with something to say -/

/-- A token that may be followed by a blank. -/
def Spaced (token : String) : Prop :=
  Stands endsWord token.toList

mutual

/-- Whether the sentence of a part says something at every place, in tokens that may be followed by a
blank. -/
def Part.Sayable : Part → Prop
  | .literal tokens _ => tokens ≠ [] ∧ ∀ token ∈ tokens, Spaced token
  | .argument _ => True
  | .optional body => body ≠ [] ∧ Grammar.Sayable body
  | .choices alternatives => Grammar.FirstSayable alternatives

/-- The same of every part of a grammar. -/
def Grammar.Sayable : List Part → Prop
  | [] => True
  | part :: parts => part.Sayable ∧ Grammar.Sayable parts

/-- The same of the first alternative, which there must be. -/
def Grammar.FirstSayable : List (List Part) → Prop
  | [] => False
  | alternative :: _ => alternative ≠ [] ∧ Grammar.Sayable alternative

end

theorem sayable_append {parts more : Grammar} (h : Grammar.Sayable parts)
    (h' : Grammar.Sayable more) : Grammar.Sayable (parts ++ more) := by
  induction parts with
  | nil => exact h'
  | cons part parts ih => exact ⟨h.1, ih h.2⟩

mutual

theorem Part.slots_ne_nil (part : Part) (h : part.Sayable) : part.slots ≠ [] := by
  match part with
  | .literal tokens caseSensitive => exact fun empty => h.1 (List.map_eq_nil_iff.1 empty)
  | .argument name => exact List.cons_ne_nil _ _
  | .optional body => exact Grammar.slots_ne_nil body h.1 h.2
  | .choices [] => exact h.elim
  | .choices (alternative :: alternatives) => exact Grammar.slots_ne_nil alternative h.1 h.2

/-- The sentence of a grammar is not empty. -/
theorem Grammar.slots_ne_nil (grammar : List Part) (some : grammar ≠ [])
    (h : Grammar.Sayable grammar) : Grammar.slots grammar ≠ [] := by
  match grammar with
  | [] => exact absurd rfl some
  | part :: parts =>
    exact fun empty => Part.slots_ne_nil part h.1 (List.append_eq_nil_iff.1 empty).1

end

mutual

theorem Part.spaced_of_mem_slots (part : Part) (h : part.Sayable) {text : String}
    (member : .word text ∈ part.slots) : Spaced text := by
  match part with
  | .literal tokens caseSensitive =>
    obtain ⟨word, isWord, same⟩ := List.mem_map.1 member
    cases same
    exact h.2 text isWord
  | .argument name => cases List.mem_singleton.1 member
  | .optional body => exact Grammar.spaced_of_mem_slots body h.2 member
  | .choices [] => exact h.elim
  | .choices (alternative :: alternatives) =>
    exact Grammar.spaced_of_mem_slots alternative h.2 member

/-- The words of a sentence may be followed by a blank. -/
theorem Grammar.spaced_of_mem_slots (grammar : List Part) (h : Grammar.Sayable grammar)
    {text : String} (member : .word text ∈ Grammar.slots grammar) : Spaced text := by
  match grammar with
  | [] => cases member
  | part :: parts =>
    rcases List.mem_append.1 member with first | later
    · exact Part.spaced_of_mem_slots part h.1 first
    · exact Grammar.spaced_of_mem_slots parts h.2 later

end

/-! ## Matching the sentence -/

theorem tokenFits_self (caseSensitive : Bool) (token : String) :
    tokenFits caseSensitive token token = true := by
  cases caseSensitive <;> simp [tokenFits]

mutual

/-- A part takes its sentence, whatever may follow. -/
theorem Part.match?_of_fills (part : Part) (sayable : part.Sayable) {tokens : List String}
    {bound : List (String × String)} (h : Fills part.slots tokens bound) (more : List String) :
    part.match? (tokens ++ more) = some (.ofRun tokens bound) := by
  match part with
  | .literal expected caseSensitive =>
    obtain ⟨rfl, rfl⟩ := h.eq_of_words
    have fits := tokensFit_of_forall₂
      (List.forall₂_same.2 fun token (_ : token ∈ tokens) => tokenFits_self caseSensitive token) more
    rw [Part.match?, if_pos fits]
    rfl
  | .argument name =>
    cases h with
    | gap _ token rest =>
      cases rest
      rfl
  | .optional body =>
    rw [Part.match?, Grammar.match?_of_fills body sayable.2 h more]
    rfl
  | .choices [] => exact sayable.elim
  | .choices (alternative :: alternatives) =>
    rw [Part.match?, Grammar.firstMatch?,
      Grammar.match?_of_fills alternative sayable.2 h more]

/-- A grammar takes its sentence, whatever may follow. -/
theorem Grammar.match?_of_fills (grammar : List Part) (sayable : Grammar.Sayable grammar)
    {tokens : List String} {bound : List (String × String)}
    (h : Fills (Grammar.slots grammar) tokens bound) (more : List String) :
    Grammar.match? (tokens ++ more) grammar = some (.ofRun tokens bound) := by
  match grammar with
  | [] =>
    cases h
    rfl
  | part :: parts =>
    obtain ⟨front, back, bound', later, rfl, rfl, first, others⟩ := h.split
    have left : (front ++ (back ++ more)).drop (Match.ofRun front bound').tokenCount = back ++ more :=
      List.drop_left
    rw [List.append_assoc, Grammar.match?, Part.match?_of_fills part sayable.1 first]
    simp only [left, Grammar.match?_of_fills parts sayable.2 others more, Match.ofRun_append]

end

end Phrasebook
