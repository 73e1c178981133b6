import Phrasebook.Text.Graphic
import Phrasebook.Text.Extending

/-!
# Quoted text

How a text is shown inside a message: between double quotes, with every character that would not be
seen as itself written as an escape. `escaped` gives the spelling of one character and `quoted` that
of a whole text.
-/

namespace Phrasebook.Text

/-- One character as it stands between the quotes: the quote, the backslash and four controls have
short escapes, other characters without a mark of their own are written by their code. -/
def escaped (c : Char) : List Char :=
  match c with
  | '"' => ['\\', '"']
  | '\\' => ['\\', '\\']
  | '\t' => ['\\', 't']
  | '\n' => ['\\', 'n']
  | '\r' => ['\\', 'r']
  | c =>
    if c.toNat == 0 then ['\\', '0']
    else if isGraphic c && !isExtending c then [c]
    else ['\\', 'u', '{'] ++ Nat.toDigits 16 c.toNat ++ ['}']

/-- A text between double quotes. -/
def quoted (text : String) : String :=
  String.ofList ('"' :: text.toList.flatMap escaped ++ ['"'])

end Phrasebook.Text
