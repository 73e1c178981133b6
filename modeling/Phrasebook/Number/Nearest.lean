import Phrasebook.Number.Digits
import Phrasebook.Number.Double

/-!
# The double nearest to a decimal

`Decimal.read?` reads the text of a decimal number and `Decimal.nearest?` gives the double closest
to it: of two equally close ones that with an even significand, and none at all when the number lies
beyond the greatest double. Everything is computed on whole numbers, so there is one rounding step,
`roundDiv`, and it is exact.
-/

namespace Phrasebook.Number

/-- The whole number closest to a quotient; halfway between two, the even one. -/
def roundDiv (num den : Nat) : Nat :=
  let quotient := num / den
  let twice := 2 * (num % den)
  if twice < den then quotient
  else if den < twice then quotient + 1
  else quotient + quotient % 2

/-- The greatest `e` with `2 ^ e ≤ num / den`, for positive numbers. -/
def floorLog2 (num den : Nat) : Int :=
  let guess : Int := (Nat.log2 num : Int) - Nat.log2 den
  if den * Nat.pow 2 guess.toNat ≤ num * Nat.pow 2 (-guess).toNat then guess else guess - 1

/-- The double closest to `num / den`, with the given sign. The scale is the least power of two that
leaves at most 53 bits; rounding up to one bit more carries into the exponent field by itself. -/
def nearestQuotient? (negative : Bool) (num den : Nat) : Option Double :=
  let scale : Int := if num = 0 then -1074 else max (floorLog2 num den - 52) (-1074)
  let rounded := roundDiv (num * Nat.pow 2 (-scale).toNat) (den * Nat.pow 2 scale.toNat)
  let magnitude := (scale + 1074).toNat * leadingOne + rounded
  if magnitude < 2047 * leadingOne then
    Double.ofBits? (UInt64.ofNat ((if negative then signPlace else 0) + magnitude))
  else
    none

/-- The double closest to a whole number; doubles reach far beyond what is asked for here. -/
def nearestInt? (n : Int) : Option Double :=
  nearestQuotient? (n < 0) n.natAbs 1

/-- The number `coefficient * 10 ^ exponent`, or its negative. -/
structure Decimal where
  negative : Bool
  coefficient : Nat
  exponent : Int
  deriving DecidableEq, Repr

namespace Decimal

/-- The double closest to a decimal. A number of ten to the 400 and above, or to the minus 400 and
below, is far outside the range of doubles, whatever its digits. -/
def nearest? (d : Decimal) : Option Double :=
  let size : Int := d.exponent + (decimal d.coefficient).length
  if d.coefficient = 0 || size < -400 then nearestQuotient? d.negative 0 1
  else if 400 < size then none
  else nearestQuotient? d.negative (d.coefficient * Nat.pow 10 d.exponent.toNat)
    (Nat.pow 10 (-d.exponent).toNat)

/-- A sign in front of a text. -/
def readSign : List Char → Bool × List Char
  | '-' :: text => (true, text)
  | '+' :: text => (false, text)
  | text => (false, text)

/-- What may follow the digits: nothing, or `e` and a whole number. -/
def readExponent? : List Char → Option Int
  | [] => some 0
  | c :: text => if c == 'e' || c == 'E' then readInteger? text else none

/-- A decimal number: an optional sign, digits with at most one point among them, and an optional
exponent. At least one digit stands in front of the exponent. -/
def read? (text : List Char) : Option Decimal :=
  let (negative, text) := readSign text
  let whole := text.takeWhile Char.isDigit
  let text := text.dropWhile Char.isDigit
  let (places, text) := match text with
    | '.' :: text => (text.takeWhile Char.isDigit, text.dropWhile Char.isDigit)
    | text => ([], text)
  if whole.isEmpty && places.isEmpty then none
  else (readExponent? text).map fun exponent =>
    ⟨negative, ofDigits (whole ++ places), exponent - places.length⟩

end Decimal

end Phrasebook.Number
