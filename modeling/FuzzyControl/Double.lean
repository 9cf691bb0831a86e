/-!
# Doubles

The fields of a binary64 number: a sign, an exponent and a fraction, read from its
bits as naturals.
-/

namespace FuzzyControl

namespace Double

def signBit : Nat :=
  0x8000000000000000

/-- The place of the leading bit of a significand, which is not stored. -/
def hiddenBit : Nat :=
  0x10000000000000

/-- The exponent field of infinities and undefined results. -/
def topExponent : Nat :=
  0x7FF

def bits (value : Float) : Nat :=
  value.toBits.toNat

def isNegative (value : Float) : Bool :=
  signBit ≤ bits value

def exponentField (value : Float) : Nat :=
  bits value / hiddenBit % (topExponent + 1)

def fraction (value : Float) : Nat :=
  bits value % hiddenBit

/-- A key in which the order of doubles is the order of naturals; zero follows negative zero. -/
def rank (value : Float) : Nat :=
  if isNegative value then 2 * signBit - 1 - bits value else bits value + signBit

end Double

end FuzzyControl
