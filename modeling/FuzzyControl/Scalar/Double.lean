import FuzzyControl.Double
import FuzzyControl.Scalar

/-!
# Doubles as scalars

Controllers run on doubles.  Abscissas are sorted by rank, which puts negative zero
before zero.
-/

namespace FuzzyControl

instance : Scalar Float where
  zero := 0.0
  one := 1.0
  natCast := Float.ofNat
  decidableLT := inferInstance
  decidableLE := inferInstance
  sqrt := Float.sqrt
  cbrt := Float.cbrt
  exp := Float.exp
  posInf := 1.0 / 0.0
  negInf := -1.0 / 0.0
  precedes first second := Double.rank first ≤ Double.rank second

end FuzzyControl
