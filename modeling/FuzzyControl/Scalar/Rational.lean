import FuzzyControl.Scalar.Exact
import Mathlib.Algebra.Order.Field.Rat

/-!
# Rationals as scalars

Inference over rationals is exact and can be evaluated.
-/

namespace FuzzyControl

/-- The functions are those of the degrees zero and one; the rationals have no roots elsewhere. -/
def Elementary.rational : Elementary ℚ where
  sqrt x := x
  cbrt x := x
  exp x := if x = 0 then 1 else 0
  posInf := 0
  negInf := 0

theorem Elementary.rational_bounded : Elementary.rational.Bounded where
  sqrt_mem _ nonneg le_one := ⟨nonneg, le_one⟩
  cbrt_mem _ nonneg le_one := ⟨nonneg, le_one⟩
  exp_mem x _ := by
    simp only [rational]
    split
    · exact ⟨zero_le_one, le_refl _⟩
    · exact ⟨le_refl _, zero_le_one⟩

instance : Scalar ℚ :=
  Elementary.rational.scalar

end FuzzyControl
