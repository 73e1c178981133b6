import Phrasebook.Grammar.Basic
import Phrasebook.Grammar.Brackets

/-!
# Compiling format strings

`compile` reads a format string into a grammar. Text outside brackets is a literal; the three kinds of
brackets enclose an argument name, an optional part and the alternatives of a choice. Text and the
contents of brackets are compiled from left to right, and the first fault ends the work.

Each bracket is cut out with the one that closes it before its contents are looked at, so every
recursive step works on a shorter text. `compileParts_eq` and `compileAlternatives_cons` state the rules
without the bounds that show this.
-/

namespace Phrasebook

open Phrasebook.Text Phrasebook.Input

/-- Why a format string does not describe a grammar. -/
inductive FormatFault where
  | incompleteEscape
  | unclosedBracket (opening : Char)
  | unexpectedBracket (closing : Char)
  | nestedArgument
  | missingName
  | emptyOptional
  | emptyChoices
  | invalidLiteral (text : String) (fault : InputFault)
  deriving DecidableEq, Repr

/-- The wording of a fault. -/
def FormatFault.message : FormatFault → String
  | .incompleteEscape => "Incomplete escape sequence: `\\`"
  | .unclosedBracket opening => "Unclosed bracket: '" ++ opening.toString ++ "'"
  | .unexpectedBracket closing => "Unexpected bracket: '" ++ closing.toString ++ "'"
  | .nestedArgument => "Invalid recursion: '\x7b'"
  | .missingName => "Expected argument name in brackets: '\x7b\x7d'"
  | .emptyOptional => "Expected components in brackets: '()'"
  | .emptyChoices => "Expected choices in brackets: '[]'"
  | .invalidLiteral text fault => "Invalid literal `" ++ text ++ "`: " ++ fault.message

/-- Reads the text in front of the next bracket that opens. A closing one has nothing to close here. -/
def readLiteral : List Char → Except FormatFault (List Char × List Char)
  | [] => .ok ([], [])
  | [c] =>
    if c = '\\' then .error .incompleteEscape
    else if closesBracket c then .error (.unexpectedBracket c)
    else if opensBracket c then .ok ([], [c])
    else .ok ([c], [])
  | c :: d :: text =>
    if c = '\\' then
      match readLiteral text with
      | .error fault => .error fault
      | .ok (literal, rest) => .ok (c :: d :: literal, rest)
    else if closesBracket c then .error (.unexpectedBracket c)
    else if opensBracket c then .ok ([], c :: d :: text)
    else
      match readLiteral (d :: text) with
      | .error fault => .error fault
      | .ok (literal, rest) => .ok (c :: literal, rest)

/-- Reading a literal never lengthens the text. -/
theorem length_le_of_readLiteral {text : List Char} {result : List Char × List Char}
    (h : readLiteral text = .ok result) : result.2.length ≤ text.length := by
  fun_induction readLiteral text generalizing result with
  | case1 =>
    cases h
    exact Nat.le_refl 0
  | case2 => cases h
  | case3 => cases h
  | case4 =>
    cases h
    exact Nat.le_refl _
  | case5 =>
    cases h
    exact Nat.zero_le _
  | case6 => cases h
  | case7 =>
    rename_i read ih
    cases h
    have shorter := ih read
    simp only [List.length_cons] at shorter ⊢
    omega
  | case8 => cases h
  | case9 =>
    cases h
    exact Nat.le_refl _
  | case10 => cases h
  | case11 =>
    rename_i read ih
    cases h
    have shorter := ih read
    simp only [List.length_cons] at shorter ⊢
    omega

/-- What is left after reading starts with a bracket that opens. -/
theorem opensBracket_of_readLiteral {text literal rest : List Char} {c : Char}
    (h : readLiteral text = .ok (literal, c :: rest)) : opensBracket c := by
  fun_induction readLiteral text generalizing literal with
  | case1 => cases h
  | case2 => cases h
  | case3 => cases h
  | case4 =>
    rename_i opens
    cases h
    exact opens
  | case5 => cases h
  | case6 => cases h
  | case7 =>
    rename_i read ih
    cases h
    exact ih read
  | case8 => cases h
  | case9 =>
    rename_i opens
    cases h
    exact opens
  | case10 => cases h
  | case11 =>
    rename_i read ih
    cases h
    exact ih read

/-- The literal that a text outside brackets stands for, if it holds more than blanks. -/
def literalParts (text : List Char) : Except FormatFault Grammar :=
  let trimmed := trimUnescaped text
  if trimmed.isEmpty then .ok []
  else
    match Part.literal? (String.ofList trimmed) false with
    | .error fault => .error (.invalidLiteral (String.ofList trimmed) fault)
    | .ok part => .ok [part]

mutual

/-- Compiles a text from its start to its end. A bracket that opens and is neither round nor a brace is a
square one. -/
def compileParts (text : List Char) : Except FormatFault Grammar :=
  match literal : readLiteral text with
  | .error fault => .error fault
  | .ok (front, rest) =>
    match literalParts front with
    | .error fault => .error fault
    | .ok front =>
      match rest with
      | [] => .ok front
      | c :: tail =>
        have : tail.length < text.length := length_le_of_readLiteral literal
        if c = '(' then
          match closed : closeBracket? '(' ')' 0 tail with
          | none => .error (.unclosedBracket c)
          | some (contents, rest) =>
            have : contents.length + rest.length + 1 = tail.length :=
              length_of_closeBracket? closed
            match compileParts contents with
            | .error fault => .error fault
            | .ok body =>
              if body.isEmpty then .error .emptyOptional
              else
                match compileParts rest with
                | .error fault => .error fault
                | .ok parts => .ok (front ++ .optional body :: parts)
        else if c = '{' then
          match closed : closeBracket? '{' '}' 0 tail with
          | none => .error (.unclosedBracket c)
          | some (contents, rest) =>
            have : contents.length + rest.length + 1 = tail.length :=
              length_of_closeBracket? closed
            if contents.contains '{' then .error .nestedArgument
            else if (trim contents).isEmpty then .error .missingName
            else
              match compileParts rest with
              | .error fault => .error fault
              | .ok parts => .ok (front ++ .argument (String.ofList contents) :: parts)
        else
          match closed : closeBracket? '[' ']' 0 tail with
          | none => .error (.unclosedBracket c)
          | some (contents, rest) =>
            have : contents.length + rest.length + 1 = tail.length :=
              length_of_closeBracket? closed
            have : totalLength (alternativeTexts contents) ≤ contents.length + 1 :=
              totalLength_alternativeTexts_le contents
            match compileAlternatives (alternativeTexts contents) with
            | .error fault => .error fault
            | .ok alternatives =>
              if alternatives.isEmpty then .error .emptyChoices
              else
                match compileParts rest with
                | .error fault => .error fault
                | .ok parts => .ok (front ++ .choices alternatives :: parts)
termination_by text.length

/-- Compiles the texts of alternatives one after another. -/
def compileAlternatives (texts : List (List Char)) : Except FormatFault (List Grammar) :=
  match texts with
  | [] => .ok []
  | text :: texts =>
    match compileParts text with
    | .error fault => .error fault
    | .ok alternative =>
      match compileAlternatives texts with
      | .error fault => .error fault
      | .ok alternatives => .ok (alternative :: alternatives)
termination_by totalLength texts
decreasing_by all_goals simp_all [totalLength_cons] <;> omega

end

/-! ## Rules -/

/-- The rule for a text. -/
theorem compileParts_eq (text : List Char) :
    compileParts text =
      match readLiteral text with
      | .error fault => .error fault
      | .ok (literal, rest) =>
        match literalParts literal with
        | .error fault => .error fault
        | .ok front =>
          match rest with
          | [] => .ok front
          | c :: tail =>
            if c = '(' then
              match closeBracket? '(' ')' 0 tail with
              | none => .error (.unclosedBracket c)
              | some (contents, rest) =>
                match compileParts contents with
                | .error fault => .error fault
                | .ok body =>
                  if body.isEmpty then .error .emptyOptional
                  else
                    match compileParts rest with
                    | .error fault => .error fault
                    | .ok parts => .ok (front ++ .optional body :: parts)
            else if c = '{' then
              match closeBracket? '{' '}' 0 tail with
              | none => .error (.unclosedBracket c)
              | some (contents, rest) =>
                if contents.contains '{' then .error .nestedArgument
                else if (trim contents).isEmpty then .error .missingName
                else
                  match compileParts rest with
                  | .error fault => .error fault
                  | .ok parts => .ok (front ++ .argument (String.ofList contents) :: parts)
            else
              match closeBracket? '[' ']' 0 tail with
              | none => .error (.unclosedBracket c)
              | some (contents, rest) =>
                match compileAlternatives (alternativeTexts contents) with
                | .error fault => .error fault
                | .ok alternatives =>
                  if alternatives.isEmpty then .error .emptyChoices
                  else
                    match compileParts rest with
                    | .error fault => .error fault
                    | .ok parts => .ok (front ++ .choices alternatives :: parts) := by
  rw [compileParts]
  split
  · next read => simp only [read]
  · next literal rest read =>
    simp only [read]
    cases literalParts literal with
    | error fault => rfl
    | ok front =>
      cases rest with
      | nil => rfl
      | cons c tail =>
        dsimp only
        by_cases round : c = '('
        · rw [if_pos round, if_pos round]
          split
          · next closed => simp only [closed]
          · next closed => simp only [closed]
        · rw [if_neg round, if_neg round]
          by_cases brace : c = '{'
          · rw [if_pos brace, if_pos brace]
            split
            · next closed => simp only [closed]
            · next closed => simp only [closed]
          · rw [if_neg brace, if_neg brace]
            split
            · next closed => simp only [closed]
            · next closed => simp only [closed]

theorem compileAlternatives_nil : compileAlternatives [] = .ok [] := by
  rw [compileAlternatives]

/-- The rule for the texts of alternatives. -/
theorem compileAlternatives_cons (text : List Char) (texts : List (List Char)) :
    compileAlternatives (text :: texts) =
      match compileParts text with
      | .error fault => .error fault
      | .ok alternative =>
        match compileAlternatives texts with
        | .error fault => .error fault
        | .ok alternatives => .ok (alternative :: alternatives) := by
  rw [compileAlternatives]

/-! ## Format strings -/

/-- The grammar that a format string describes. -/
def compile (format : String) : Except FormatFault Grammar :=
  compileParts format.toList

end Phrasebook
