import FuzzyControl.Decimal.Shortest

/-!
# Positional notation

Messages write a number without an exponent, however large or small it is, and a
whole number without a decimal point.
-/

namespace FuzzyControl

namespace Decimal

/-- Writes `digits * 10 ^ exponent` out in full. -/
def Digits.positional (decimal : Digits) : String :=
  let text := toString decimal.digits
  if 0 ≤ decimal.exponent then
    text ++ String.ofList (List.replicate decimal.exponent.toNat '0')
  else
    let places := (-decimal.exponent).toNat
    let padded := List.replicate (places + 1 - text.length) '0' ++ text.toList
    let whole := padded.length - places
    String.ofList (padded.take whole) ++ "." ++ String.ofList (padded.drop whole)

def signText (negative : Bool) : String :=
  if negative then "-" else ""

/-- Writes a numeral; negative zero keeps its sign. -/
def Numeral.positional : Numeral → String
  | .undefined => "NaN"
  | .infinite negative => signText negative ++ "inf"
  | .finite negative decimal =>
      signText negative ++ (if decimal.digits = 0 then "0" else decimal.positional)

def text (value : Float) : String :=
  (Numeral.ofDouble value).positional

end Decimal

end FuzzyControl
