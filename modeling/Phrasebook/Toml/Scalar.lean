import Phrasebook.Number.Nearest
import Phrasebook.Value.Quotation
import Phrasebook.Toml.Date

/-!
# Numbers, dates and truth values of TOML

Which of the TOML values without quotes and brackets a word is: `scalar?` tells truth values, whole
numbers, doubles and dates apart, and refuses all other words. Of dates the text is kept and of the
others only the kind, since no more is asked of them here, but the rules for the digits and the ranges
of numbers are checked.
-/

namespace Phrasebook.Toml

open Phrasebook.Number Phrasebook.Value

/-- The values without quotes and brackets, as far as they are told apart. -/
inductive Scalar where
  | integer
  | float
  | boolean
  | datetime (text : List Char)
  deriving DecidableEq, Repr

/-! ## Numbers -/

/-- Whether a text consists of digits of the given sort, with underscores between digits. -/
def areDigits (isDigit : Char → Bool) : List Char → Bool
  | [] => false
  | [c] => isDigit c
  | c :: d :: text =>
    isDigit c && (if d = '_' then areDigits isDigit text else areDigits isDigit (d :: text))

/-- Whether a text is a run of decimal digits without a needless zero in front. -/
def isWhole (text : List Char) : Bool :=
  areDigits Char.isDigit text && (text.length = 1 || text.head? ≠ some '0')

/-- A text without a sign in front of it, and whether that was a minus. -/
def splitSign : List Char → Bool × List Char
  | [] => (false, [])
  | c :: text =>
    if c = '-' then (true, text) else if c = '+' then (false, text) else (false, c :: text)

/-- The number that digits write in a base, underscores left out. -/
def digitsValue (base : Nat) (text : List Char) : Nat :=
  text.foldl (fun value c =>
    match hexValue? c with
    | some d => base * value + d
    | none => value) 0

/-- Whether a text is a whole number of 64 bits with a sign, in base ten, sixteen, eight or two. -/
def isInteger (text : List Char) : Bool :=
  match text with
  | c :: d :: digits =>
    if c = '0' ∧ d = 'x' then
      areDigits (fun c => (hexValue? c).isSome) digits && digitsValue 16 digits < signPlace
    else if c = '0' ∧ d = 'o' then
      areDigits (fun c => '0' ≤ c && c ≤ '7') digits && digitsValue 8 digits < signPlace
    else if c = '0' ∧ d = 'b' then
      areDigits (fun c => c = '0' || c = '1') digits && digitsValue 2 digits < signPlace
    else isDecimalInteger text
  | _ => isDecimalInteger text
where
  /-- A whole number in base ten. -/
  isDecimalInteger (text : List Char) : Bool :=
    let (negative, digits) := splitSign text
    isWhole digits && digitsValue 10 digits < signPlace + (if negative then 1 else 0)

/-- Whether a text is an exponent: `e`, a sign if wanted, and digits. -/
def isExponent : List Char → Bool
  | [] => false
  | c :: text => (c = 'e' || c = 'E') && areDigits Char.isDigit (splitSign text).2

/-- Whether a text is what may follow the whole part of a double: a point with digits, an exponent, or
both. -/
def isFraction : List Char → Bool
  | [] => false
  | c :: text =>
    if c = '.' then
      let places := text.takeWhile fun c => c.isDigit || c = '_'
      let rest := text.dropWhile fun c => c.isDigit || c = '_'
      areDigits Char.isDigit places && (rest.isEmpty || isExponent rest)
    else isExponent (c :: text)

/-- Whether a text is a double. One beyond the greatest double is refused, unless it is negative. -/
def isFloat (text : List Char) : Bool :=
  let (negative, magnitude) := splitSign text
  let whole := magnitude.takeWhile fun c => c.isDigit || c = '_'
  let rest := magnitude.dropWhile fun c => c.isDigit || c = '_'
  magnitude = ['i', 'n', 'f'] || magnitude = ['n', 'a', 'n'] ||
    (isWhole whole && isFraction rest &&
      (negative || ((Decimal.read? (magnitude.filter (· ≠ '_'))).bind Decimal.nearest?).isSome))

/-! ## Words -/

/-- The value that a word is. -/
def scalar? (word : List Char) : Option Scalar :=
  if word = "true".toList ∨ word = "false".toList then some .boolean
  else if isInteger word then some .integer
  else if isFloat word then some .float
  else (datetime? word).map .datetime

end Phrasebook.Toml
