import Phrasebook.Number.Nearest

/-!
# Doubles scaled by powers of ten

A double times a power of ten, computed with doubles alone: `Double.scale?`. The power is rounded to a
double first and the product or quotient is rounded once more, so the result may differ in its last
place from the double closest to the exact number, which `Decimal.nearest?` gives. Readers that keep
to machine arithmetic compute decimals in this way.
-/

namespace Phrasebook.Number.Double

/-- The double closest to `num / den * 2 ^ power`, with the given sign. -/
def nearestBinary? (negative : Bool) (num den : Nat) (power : Int) : Option Double :=
  nearestQuotient? negative (num * Nat.pow 2 power.toNat) (den * Nat.pow 2 (-power).toNat)

/-- The double closest to a product; there is none beyond the greatest double. -/
def times? (x y : Double) : Option Double :=
  nearestBinary? (x.isNegative != y.isNegative) (x.significand * y.significand) 1
    (x.exponent + y.exponent)

/-- The double closest to a quotient, whose divisor is not zero. -/
def over? (x y : Double) : Option Double :=
  nearestBinary? (x.isNegative != y.isNegative) x.significand y.significand
    (x.exponent - y.exponent)

/-- The greatest exponent of a power of ten that is in the range of doubles. -/
def greatestPower : Nat := 308

/-- The double closest to a power of ten; `power` is at most `greatestPower`. -/
def powerOfTen (power : Nat) : Double :=
  (nearestQuotient? false (Nat.pow 10 power) 1).getD default

/-- A double scaled by a power of ten. A power below the range of doubles is taken in several steps,
each of which rounds; zero stays zero at any scale. -/
def scale? (x : Double) (power : Int) : Option Double :=
  if x.significand = 0 then some x
  else if (greatestPower : Int) < power then none
  else if 0 ≤ power then x.times? (powerOfTen power.toNat)
  else if -(greatestPower : Int) ≤ power then x.over? (powerOfTen (-power).toNat)
  else (x.over? (powerOfTen greatestPower)).bind fun y => y.scale? (power + greatestPower)
termination_by (-power).toNat
decreasing_by simp only [greatestPower] at *; omega

end Phrasebook.Number.Double
