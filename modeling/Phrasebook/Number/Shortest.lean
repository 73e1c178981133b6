import Phrasebook.Number.Digits
import Phrasebook.Number.Double

/-!
# The shortest decimal of a double

The text of a double is the decimal with the fewest digits that lies closer to it than to any other
double, and of those with equally few digits the closest one. `Double.shortest` finds it: the reals
that round to the double form an interval, and for one digit, two digits and so on the two
neighbours of the double on that decimal grid are tried in turn. `Double.text` lays the digits out.
-/

namespace Phrasebook.Number

/-- The positive number `num / den`. -/
structure Quotient where
  num : Nat
  den : Nat

/-- The number multiplied by a power of ten. -/
def Quotient.shift (x : Quotient) (power : Int) : Quotient :=
  ⟨x.num * Nat.pow 10 power.toNat, x.den * Nat.pow 10 (-power).toNat⟩

/-- The greatest `e` with `10 ^ e ≤ x`. -/
def Quotient.floorLog10 (x : Quotient) : Int :=
  if x.den ≤ x.num then (decimal (x.num / x.den)).length - 1
  else -((decimal ((x.den - 1) / x.num)).length : Int)

/-- The number `digits * 10 ^ exponent`. -/
structure Shortest where
  digits : Nat
  exponent : Int
  deriving DecidableEq, Repr

/-- Drops the zeros at the end of the digits; `fuel` bounds their number. -/
def Shortest.normalize (fuel : Nat) (s : Shortest) : Shortest :=
  match fuel with
  | 0 => s
  | fuel + 1 =>
    if s.digits ≠ 0 ∧ s.digits % 10 = 0 then normalize fuel ⟨s.digits / 10, s.exponent + 1⟩ else s

namespace Double

/-- A quarter of the unit in the last place of the significand, in units of which the bounds of the
rounding interval are whole: the number is four times the significand of them. -/
def quarters (x : Double) (count : Nat) : Quotient :=
  let power := x.exponent - 2
  ⟨count * Nat.pow 2 power.toNat, Nat.pow 2 (-power).toNat⟩

/-- The lower end of the interval of reals that round to the double. It is nearer when the double
below has a smaller exponent. -/
def lowerEnd (x : Double) : Nat :=
  if x.fraction = 0 ∧ 1 < x.exponentField then 4 * x.significand - 1 else 4 * x.significand - 2

/-- The upper end of that interval. -/
def upperEnd (x : Double) : Nat :=
  4 * x.significand + 2

/-- Whether a point of the decimal grid `10 ^ power` rounds to the double. The ends of the interval
belong to it when the significand is even. -/
def admits (x : Double) (power : Int) (point : Nat) : Bool :=
  let low := (x.quarters x.lowerEnd).shift (-power)
  let high := (x.quarters x.upperEnd).shift (-power)
  if x.significand % 2 = 0 then low.num ≤ point * low.den && point * high.den ≤ high.num
  else low.num < point * low.den && point * high.den < high.num

/-- The closer of the two neighbours of the double on the grid `10 ^ power` that round to it. -/
def onGrid? (x : Double) (power : Int) : Option Shortest :=
  let value := (x.quarters (4 * x.significand)).shift (-power)
  let below := value.num / value.den
  let twice := 2 * (value.num % value.den)
  let aboveFirst := value.den < twice || (value.den == twice && below % 2 == 1)
  let candidates := if aboveFirst then [below + 1, below] else [below, below + 1]
  (candidates.find? (x.admits power)).map (⟨·, power⟩)

/-- The shortest decimal that rounds to a double, and of those the closest. Seventeen digits always
suffice. -/
def shortest (x : Double) : Shortest :=
  if x.significand = 0 then ⟨0, 0⟩
  else
    let top := (x.quarters (4 * x.significand)).floorLog10
    let found := (List.range 17).findSome? fun (places : Nat) => x.onGrid? (top - places)
    (found.getD ⟨0, 0⟩).normalize 17

/-- The exponent part of a number in scientific layout: always a sign, and no zeros in front. -/
def exponentText (e : Int) : List Char :=
  (if e < 0 then '-' else '+') :: decimal e.natAbs

/-- Digits laid out with a point behind the place of value `10 ^ 0`, when the first has the value
`10 ^ top`. There is a digit on both sides of the point. -/
def positionalText (digits : List Char) (top : Int) : List Char :=
  if top < 0 then
    ['0', '.'] ++ List.replicate (-top - 1).toNat '0' ++ digits
  else
    let whole := top.toNat + 1
    digits.take whole ++ List.replicate (whole - digits.length) '0' ++
      ['.'] ++ (if digits.length ≤ whole then ['0'] else digits.drop whole)

/-- Digits with a point behind the first one and an exponent. -/
def scientificText (digits : List Char) (top : Int) : List Char :=
  digits.take 1 ++ (if digits.length ≤ 1 then [] else '.' :: digits.drop 1) ++
    'e' :: exponentText top

/-- The text of a double. Numbers from `10 ^ -5` to below `10 ^ 16` are written out with a point,
others with an exponent. -/
def text (x : Double) : List Char :=
  let decimal := x.shortest
  let digits := Number.decimal decimal.digits
  let top := decimal.exponent + digits.length - 1
  (if x.isNegative then ['-'] else []) ++
    if decimal.digits = 0 || (-5 ≤ top && top < 16) then positionalText digits top
    else scientificText digits top

end Double

end Phrasebook.Number
