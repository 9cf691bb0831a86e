import FuzzyControl.Double

/-!
# Shortest decimals

The shortest decimal of a double has the fewest digits among all decimals that
round to it, and is the nearest of those.  It is found on the coarsest grid
`digits * 10 ^ exponent` that meets the rounding interval of the double, in exact
arithmetic on naturals.
-/

namespace FuzzyControl

namespace Decimal

/-- A positive double `significand * 2 ^ exponent` with its gap to the double below. -/
structure Binary where
  significand : Nat
  exponent : Int
  /-- The double below lies half as far away as the double above. -/
  narrowBelow : Bool
deriving DecidableEq, Repr

/-- The decimal `digits * 10 ^ exponent`. -/
structure Digits where
  digits : Nat
  exponent : Int
deriving DecidableEq, Repr

namespace Binary

/-- The double in quarters of its unit in the last place. -/
def quarters (binary : Binary) : Nat :=
  4 * binary.significand

def lowerEnd (binary : Binary) : Nat :=
  binary.quarters - (if binary.narrowBelow then 1 else 2)

def upperEnd (binary : Binary) : Nat :=
  binary.quarters + 2

/--
Factors that bring both sides of a comparison to naturals: `q` quarters lie below
`d * 10 ^ exponent` exactly if `q * quarterScale` lies below `d * gridScale`.
-/
def quarterScale (binary : Binary) (exponent : Int) : Nat :=
  Nat.pow 2 (binary.exponent - 2).toNat * Nat.pow 10 (-exponent).toNat

@[inherit_doc quarterScale]
def gridScale (binary : Binary) (exponent : Int) : Nat :=
  Nat.pow 2 (2 - binary.exponent).toNat * Nat.pow 10 exponent.toNat

/-- Whether the decimal rounds to the double; an even significand owns both ends. -/
def reads (binary : Binary) (decimal : Digits) : Bool :=
  let value := decimal.digits * binary.gridScale decimal.exponent
  let lower := binary.lowerEnd * binary.quarterScale decimal.exponent
  let upper := binary.upperEnd * binary.quarterScale decimal.exponent
  if binary.significand % 2 = 0 then lower ≤ value && value ≤ upper
  else lower < value && value < upper

/-- The greatest multiple of `10 ^ exponent` that is not above the double. -/
def below (binary : Binary) (exponent : Int) : Digits :=
  ⟨binary.quarters * binary.quarterScale exponent / binary.gridScale exponent, exponent⟩

/-- The least multiple of `10 ^ exponent` that is above the double. -/
def above (binary : Binary) (exponent : Int) : Digits :=
  ⟨(binary.below exponent).digits + 1, exponent⟩

def nearerAbove (binary : Binary) (exponent : Int) : Bool :=
  let value := binary.quarters * binary.quarterScale exponent
  let scale := binary.gridScale exponent
  (binary.above exponent).digits * scale - value ≤ value - (binary.below exponent).digits * scale

/-- The decimal on one grid that reads as the double and is nearest to it. -/
def onGrid? (binary : Binary) (exponent : Int) : Option Digits :=
  let low := binary.below exponent
  let high := binary.above exponent
  match binary.reads low, binary.reads high with
  | true, true => some (if binary.nearerAbove exponent then high else low)
  | true, false => some low
  | false, true => some high
  | false, false => none

/-- Tries ever finer grids, `count` of them. -/
def search (binary : Binary) : Nat → Int → Digits
  | 0, exponent => binary.below exponent
  | count + 1, exponent => (binary.onGrid? exponent).getD (binary.search count (exponent - 1))

/-- A grid that is too coarse to meet the rounding interval. -/
def coarseExponent (binary : Binary) : Int :=
  (binary.significand.log2 + binary.exponent + 1) * 30103 / 100000 + 2

def shortest (binary : Binary) : Digits :=
  binary.search 24 binary.coarseExponent

end Binary

inductive Numeral where
  | undefined
  | infinite (negative : Bool)
  | finite (negative : Bool) (decimal : Digits)
deriving DecidableEq, Repr

def Numeral.ofDouble (value : Float) : Numeral :=
  let negative := Double.isNegative value
  let exponent := Double.exponentField value
  let fraction := Double.fraction value
  if exponent = Double.topExponent then
    if fraction = 0 then .infinite negative else .undefined
  else if exponent = 0 then
    if fraction = 0 then .finite negative ⟨0, 0⟩
    else .finite negative (Binary.shortest ⟨fraction, -1074, false⟩)
  else
    .finite negative
      (Binary.shortest
        ⟨fraction + Double.hiddenBit, (exponent : Int) - 1075,
          fraction == 0 && decide (1 < exponent)⟩)

end Decimal

end FuzzyControl
