/-!
# Finite doubles

A `Double` is a finite binary floating point number of 64 bits, held as its bits, so that equality
is equality of representations and the two zeros stay apart. Its magnitude is
`significand * 2 ^ exponent`; both are read off the bits.
-/

namespace Phrasebook.Number

/-- The place of the leading one, above the bits that are kept of a significand: `2 ^ 52`. -/
def leadingOne : Nat := 0x10000000000000

/-- The place of the sign: `2 ^ 63`. -/
def signPlace : Nat := 0x8000000000000000

/-- A finite binary floating point number of 64 bits. -/
structure Double where
  bits : UInt64
  finite : bits.toNat / leadingOne % 2048 ≠ 2047
  deriving DecidableEq

namespace Double

instance : Inhabited Double := ⟨⟨0, by decide⟩⟩

/-- The double with the given bits, if they are those of a finite number. -/
def ofBits? (bits : UInt64) : Option Double :=
  if h : bits.toNat / leadingOne % 2048 ≠ 2047 then some ⟨bits, h⟩ else none

/-- Whether the sign bit is set, as it is for negative zero. -/
def isNegative (x : Double) : Bool :=
  signPlace ≤ x.bits.toNat

/-- The exponent field: zero for the numbers without a leading one. -/
def exponentField (x : Double) : Nat :=
  x.bits.toNat / leadingOne % 2048

/-- The bits below the exponent field. -/
def fraction (x : Double) : Nat :=
  x.bits.toNat % leadingOne

/-- The whole number that, scaled by the exponent, is the magnitude. -/
def significand (x : Double) : Nat :=
  if x.exponentField = 0 then x.fraction else leadingOne + x.fraction

/-- The power of two that scales the significand. -/
def exponent (x : Double) : Int :=
  (max x.exponentField 1 : Nat) - 1075

end Double

end Phrasebook.Number
