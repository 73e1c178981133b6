import Phrasebook.Command.Resolve
import Phrasebook.Proofs.Grammar.Match
import Phrasebook.Proofs.Input.Quoting

/-!
# Quoted text does not decide what is called

Token lists that no literal tells apart call the same command (`resolve_alike`). A quotation is told apart
from another one only by a literal that begins with a quote (`unseen_of_isQuote`), so that commands
without such literals are resolved alike whatever a quotation in the input holds:
`resolveInput_quoted`.
-/

namespace Phrasebook

open Phrasebook.Text Phrasebook.Value Phrasebook.Input

variable {σ N : Type}

/-! ## Resolving related tokens -/

/-- The same command, with matches that are alike. -/
structure Resolution.Alike (R : String → String → Prop) (chosen chosen' : Resolution σ N) : Prop where
  command : chosen.command = chosen'.command
  found : Match.Alike R chosen.found chosen'.found

section

variable {R : String → String → Prop} {tokens tokens' : List String}

theorem Command.fullMatch?_alike {command : Command σ N}
    (unseen : Unseen R (Grammar.literalWords command.grammar))
    (related : List.Forall₂ R tokens tokens') :
    Option.Rel (Resolution.Alike R) (command.fullMatch? tokens) (command.fullMatch? tokens') := by
  rw [Command.fullMatch?, Command.fullMatch?, Command.match?, Command.match?]
  rcases exists_of_rel (Grammar.match?_alike command.grammar unseen related) with
    ⟨missing, missing'⟩ | ⟨found, found', fits, fits', alike⟩
  · rw [missing, missing']
    exact .none
  · rw [fits, fits']
    simp only [← alike.tokenCount, ← related.length_eq]
    split
    · exact .none
    · exact .some ⟨rfl, alike⟩

theorem better_alike {best best' : Option (Resolution σ N)} {candidate candidate' : Resolution σ N}
    (h : Option.Rel (Resolution.Alike R) best best') (alike : Resolution.Alike R candidate candidate') :
    Option.Rel (Resolution.Alike R) (better best candidate) (better best' candidate') := by
  cases h with
  | none => exact .some alike
  | some alikeBest =>
    rw [better, better]
    simp only [alikeBest.found.tokenCount, alike.found.tokenCount]
    split
    · exact .some alike
    · exact .some alikeBest

/-- Lists of related tokens call the same command, with matches that are alike. -/
theorem resolve_alike {commands : List (Command σ N)}
    (unseen : ∀ command ∈ commands, Unseen R (Grammar.literalWords command.grammar))
    (related : List.Forall₂ R tokens tokens') :
    Option.Rel (Resolution.Alike R) (resolve tokens commands) (resolve tokens' commands) := by
  -- the best command so far is the same in both runs
  refine List.foldl_rel .none fun command member best best' alike => ?_
  rcases exists_of_rel (Command.fullMatch?_alike (unseen command member) related)
    with ⟨missing, missing'⟩ | ⟨candidate, candidate', fits, fits', alike'⟩
  · rw [missing, missing']
    exact alike
  · rw [fits, fits']
    exact better_alike alike alike'

/-- Calls that are the same but for one, whose tokens are related, resolve both or not at all. If they
do, the other calls resolve to the same, and this one to the same command with matches that are alike. -/
theorem resolveCalls_alike {commands : List (Command σ N)}
    (unseen : ∀ command ∈ commands, Unseen R (Grammar.literalWords command.grammar))
    (related : List.Forall₂ R tokens tokens') (before after : List (List String)) :
    ((∃ failure, resolveCalls commands (before ++ tokens :: after) = .error failure) ∧
        ∃ failure, resolveCalls commands (before ++ tokens' :: after) = .error failure) ∨
      ∃ first chosen chosen' last, first.length = before.length ∧
        resolveCalls commands (before ++ tokens :: after) = .ok (first ++ chosen :: last) ∧
        resolveCalls commands (before ++ tokens' :: after) = .ok (first ++ chosen' :: last) ∧
        Resolution.Alike R chosen chosen' := by
  induction before with
  | nil =>
    rw [List.nil_append, List.nil_append, resolveCalls, resolveCalls]
    rcases exists_of_rel (resolve_alike unseen related) with
      ⟨missing, missing'⟩ | ⟨chosen, chosen', isChosen, isChosen', alike⟩
    · rw [missing, missing']
      exact .inl ⟨⟨_, rfl⟩, ⟨_, rfl⟩⟩
    · rw [isChosen, isChosen']
      cases resolveCalls commands after with
      | error failure => exact .inl ⟨⟨failure, rfl⟩, ⟨failure, rfl⟩⟩
      | ok last => exact .inr ⟨[], chosen, chosen', last, rfl, rfl, rfl, alike⟩
  | cons call before ih =>
    rw [List.cons_append, List.cons_append, resolveCalls, resolveCalls]
    cases resolve call commands with
    | none => exact .inl ⟨⟨_, rfl⟩, ⟨_, rfl⟩⟩
    | some resolution =>
      rcases ih with ⟨⟨failure, fails⟩, ⟨failure', fails'⟩⟩ |
        ⟨first, chosen, chosen', last, length, resolves, resolves', alike⟩
      · rw [fails, fails']
        exact .inl ⟨⟨failure, rfl⟩, ⟨failure', rfl⟩⟩
      · rw [resolves, resolves']
        exact .inr ⟨resolution :: first, chosen, chosen', last, congrArg Nat.succ length, rfl, rfl,
          alike⟩

end

/-! ## Quotations -/

/-- No capital has a quote for its lower case. -/
theorem le_distance_of_mem_caseRuns {run : CaseRun} (h : run ∈ caseRuns) :
    97 ≤ run.first + run.distance := by
  revert run
  decide +kernel

/-- A number that is no code stands for the character with code zero. -/
theorem toNat_ofNat_eq_or (n : Nat) : (Char.ofNat n).toNat = n ∨ (Char.ofNat n).toNat = 0 := by
  rw [Char.ofNat]
  by_cases valid : n.isValidChar
  · rw [dif_pos valid]
    exact .inl rfl
  · rw [dif_neg valid]
    exact .inr rfl

/-- A character whose lower case begins with a quote is that quote. -/
theorem eq_of_lowercase_isQuote {c d : Char} {rest : List Char} (h : isQuote d = true)
    (lower : lowercase c = d :: rest) : c = d := by
  have small : d.toNat < 97 ∧ d.toNat ≠ 0 := by
    simp only [isQuote, Bool.or_eq_true, decide_eq_true_eq] at h
    rcases h with rfl | rfl <;> decide
  rw [lowercase] at lower
  split at lower
  · obtain ⟨rfl, -⟩ := List.cons.inj lower
    exact absurd h (by decide)
  · split at lower
    · next run found =>
      obtain ⟨same, -⟩ := List.cons.inj lower
      have member := List.mem_of_find?_eq_some found
      have inRun := List.find?_some found
      have bound := le_distance_of_mem_caseRuns member
      simp only [CaseRun.contains, Bool.and_eq_true, decide_eq_true_eq] at inRun
      rw [← same] at small
      rcases toNat_ofNat_eq_or (c.toNat + run.distance).toNat with code | zero
      · omega
      · omega
    · exact (List.cons.inj lower).1

/-- A word that does not begin with a quote is no token that does. -/
theorem tokenFits_of_isQuote {word token : String} {d : Char} {tail : List Char}
    (h : isQuote d = true) (quotes : token.toList = d :: tail)
    (free : ∀ c ∈ word.toList.head?, isQuote c = false) (caseSensitive : Bool) :
    tokenFits caseSensitive word token = false := by
  have different : ∀ c rest, word.toList = c :: rest → c ≠ d := by
    rintro c rest equal rfl
    have never := free c (by rw [equal]; rfl)
    rw [h] at never
    cases never
  have own : lowercase d = [d] := by
    simp only [isQuote, Bool.or_eq_true, decide_eq_true_eq] at h
    rcases h with rfl | rfl <;> decide
  cases caseSensitive with
  | true =>
    simp only [tokenFits, if_true, decide_eq_false_iff_not]
    rintro rfl
    exact different d tail quotes rfl
  | false =>
    simp only [tokenFits, Bool.false_eq_true, if_false, decide_eq_false_iff_not, foldCase, quotes,
      List.flatMap_cons, own, List.singleton_append]
    intro same
    cases letters : word.toList with
    | nil => rw [letters] at same; cases same
    | cons c rest =>
      rw [letters, List.flatMap_cons] at same
      cases lower : lowercase c with
      | nil =>
        -- no character has an empty lower case
        rw [lowercase] at lower
        split at lower
        · cases lower
        · split at lower <;> cases lower
      | cons e more =>
        rw [lower] at same
        obtain ⟨rfl, -⟩ := List.cons.inj same
        exact different c rest letters (eq_of_lowercase_isQuote h lower)

section

variable (quote : Char) (text text' : String) (left right : List String)

/-- Tokens at one position of two calls that are the same but for the quotation between `left` and
`right`: equal ones, unless it is the position of the quotation. -/
def Requoted (token token' : String) : Prop :=
  ∃ i, (left ++ quoted quote text :: right)[i]? = some token ∧
    (left ++ quoted quote text' :: right)[i]? = some token' ∧
    (token = token' ∨ i = left.length ∧ token = quoted quote text ∧ token' = quoted quote text')

theorem forall₂_requoted :
    List.Forall₂ (Requoted quote text text' left right) (left ++ quoted quote text :: right)
      (left ++ quoted quote text' :: right) := by
  refine List.forall₂_iff_get.2 ⟨by simp, fun i h h' => ?_⟩
  refine ⟨i, by simp, by simp, ?_⟩
  simp only [List.get_eq_getElem]
  rcases Nat.lt_trichotomy i left.length with inFront | rfl | behind
  · rw [List.getElem_append_left inFront, List.getElem_append_left inFront]
    exact .inl rfl
  · exact .inr ⟨rfl, by simp, by simp⟩
  · rw [List.getElem_append_right (Nat.le_of_lt behind),
      List.getElem_append_right (Nat.le_of_lt behind)]
    obtain ⟨j, more⟩ := Nat.exists_eq_add_of_lt behind
    have position : i - left.length = j + 1 := by omega
    simp only [position, List.getElem_cons_succ]
    exact .inl trivial

variable {quote}

/-- Words that do not begin with a quote tell no two quotations apart. -/
theorem unseen_of_isQuote (h : isQuote quote = true) {words : List String}
    (free : ∀ word ∈ words, ∀ c ∈ word.toList.head?, isQuote c = false) :
    Unseen (Requoted quote text text' left right) words := by
  intro word member caseSensitive token token' requoted
  obtain ⟨i, -, -, rfl | ⟨-, rfl, rfl⟩⟩ := requoted
  · rfl
  · have spelled : ∀ text, (quoted quote text).toList =
        quote :: (escape quote text.toList ++ [quote]) := fun text => String.toList_ofList
    rw [tokenFits_of_isQuote h (spelled text) (free word member),
      tokenFits_of_isQuote h (spelled text') (free word member)]

end

/-- **Quoted text is data.** An input may hold a quotation behind a text that is read and holds no beginning
of a comment. If no literal of the commands begins with a quote, two texts in the quotation are told
apart nowhere but in the arguments that are bound to the quotation, and these are decoded to the texts. -/
theorem resolveInput_quoted {quote : Char} (h : isQuote quote = true) {front : String}
    {found : List (List String)} (read : tokenize front = .ok found) (noHash : '#' ∉ front.toList)
    (noSlash : '/' ∉ front.toList) (back text text' : String) (commands : List (Command σ N))
    (free : ∀ command ∈ commands, ∀ word ∈ Grammar.literalWords command.grammar,
      ∀ c ∈ word.toList.head?, isQuote c = false) :
    (((∃ fault, tokenize (front ++ quoted quote text ++ back) = .error fault) ∧
        ∃ fault, tokenize (front ++ quoted quote text' ++ back) = .error fault) ∨
      ∃ before left right after,
        tokenize (front ++ quoted quote text ++ back) =
          .ok (before ++ (left ++ quoted quote text :: right) :: after) ∧
        tokenize (front ++ quoted quote text' ++ back) =
          .ok (before ++ (left ++ quoted quote text' :: right) :: after) ∧
        (((∃ failure, resolveInput (front ++ quoted quote text ++ back) commands = .error failure) ∧
            ∃ failure, resolveInput (front ++ quoted quote text' ++ back) commands = .error failure) ∨
          ∃ first chosen chosen' last, first.length = before.length ∧
            resolveInput (front ++ quoted quote text ++ back) commands =
              .ok (first ++ chosen :: last) ∧
            resolveInput (front ++ quoted quote text' ++ back) commands =
              .ok (first ++ chosen' :: last) ∧
            chosen.command = chosen'.command ∧
            chosen.found.tokenCount = chosen'.found.tokenCount ∧
            List.Forall₂ (fun entry entry' => entry.1 = entry'.1 ∧
                Requoted quote text text' left right entry.2 entry'.2)
              chosen.found.arguments.entries chosen'.found.arguments.entries)) ∧
    decode (quoted quote text) = .ok (.string text) ∧
    decode (quoted quote text') = .ok (.string text') := by
  refine ⟨?_, decode_quoted h text, decode_quoted h text'⟩
  rcases tokenize_quoted h read noHash noSlash back with
    malformed | ⟨before, left, right, after, calls⟩
  · exact .inl ⟨malformed text, malformed text'⟩
  · refine .inr ⟨before, left, right, after, calls text, calls text', ?_⟩
    have unseen := fun command member =>
      unseen_of_isQuote text text' left right h (free command member)
    rw [resolveInput, resolveInput, calls text, calls text']
    rcases resolveCalls_alike unseen (forall₂_requoted quote text text' left right) before after with
      unknown | ⟨first, chosen, chosen', last, length, resolves, resolves', alike⟩
    · exact .inl unknown
    · exact .inr ⟨first, chosen, chosen', last, length, resolves, resolves', alike.command,
        alike.found.tokenCount, alike.found.arguments⟩

/-- A separator or a quote in the quotation leads to the same call. -/
theorem resolveInput_quoted_say :
    let say : Command Unit String :=
      ⟨"say", [.literal ["say"] false, .argument "what", .literal ["now"] false], none, none⟩
    ∃ first chosen chosen' last,
      resolveInput ("say " ++ quoted '\'' "a; b" ++ " now") [say] = .ok (first ++ chosen :: last) ∧
      resolveInput ("say " ++ quoted '\'' "it's" ++ " now") [say] = .ok (first ++ chosen' :: last) ∧
      chosen.command = chosen'.command ∧ chosen.found.tokenCount = chosen'.found.tokenCount := by
  intro say
  have read : tokenize "say " = .ok [["say"]] := by
    cbv
  have free : ∀ command ∈ [say], ∀ word ∈ Grammar.literalWords command.grammar,
      ∀ c ∈ word.toList.head?, isQuote c = false := by
    simp [say, Grammar.literalWords, Part.literalWords, isQuote]
  have spelled : "say " ++ quoted '\'' "a; b" ++ " now" = "say 'a; b' now" := by decide
  have input : tokenize "say 'a; b' now" = .ok [["say", "'a; b'", "now"]] := by
    simp [tokenize, readCalls, lexemes_cons, lexemes_nil, startsValue, separates, isLineBreak,
      isBlank, readWord, endsWord, readElement_eq, skipTrivia, readQuoted_cons, calls, splitCalls,
      consToken, Except.map]
  have whole : ∃ chosen, resolveInput "say 'a; b' now" [say] = .ok [chosen] := by
    rw [resolveInput, input]
    exact ⟨_, rfl⟩
  obtain ⟨whole, resolved⟩ := whole
  have single : isQuote '\'' = true := by decide
  rcases (resolveInput_quoted single read (by decide) (by decide) " now" "a; b" "it's" [say]
    free).1 with ⟨⟨fault, malformed⟩, -⟩ | ⟨_, _, _, _, -, -, ⟨⟨failure, unknown⟩, -⟩ |
      ⟨first, chosen, chosen', last, -, resolves, resolves', command, count, -⟩⟩
  · rw [spelled] at malformed
    rw [input] at malformed
    cases malformed
  · rw [spelled, resolved] at unknown
    cases unknown
  · exact ⟨first, chosen, chosen', last, resolves, resolves', command, count⟩

end Phrasebook
