import Mathlib.Analysis.SpecialFunctions.Pow.Real
import FuzzyControl.Scalar.Exact

/-!
# Exact arithmetic on reals

The reals bring the roots and the exponential function along that degrees are reshaped by.
-/

namespace FuzzyControl

/-- The functions on the reals; the cube root is that of degrees. -/
noncomputable def Elementary.real : Elementary ℝ where
  sqrt := Real.sqrt
  cbrt x := x ^ (1 / 3 : ℝ)
  exp := Real.exp
  posInf := 0
  negInf := 0

/-- What inference assumes of roots and exponentials holds on the reals. -/
theorem Elementary.real_bounded : Elementary.real.Bounded where
  sqrt_mem x _ le_one := ⟨Real.sqrt_nonneg x, Real.sqrt_le_one.2 le_one⟩
  cbrt_mem x nonneg le_one :=
    ⟨Real.rpow_nonneg nonneg _, Real.rpow_le_one nonneg le_one (by norm_num)⟩
  exp_mem x nonpos := ⟨(Real.exp_pos x).le, Real.exp_le_one_iff.2 nonpos⟩

theorem Elementary.real_raisingRoots : Elementary.real.RaisingRoots where
  sqrt_mono _ _ _ le _ := Real.sqrt_le_sqrt le
  cbrt_mono _ _ nonneg le _ := Real.rpow_le_rpow nonneg le (by norm_num)
  le_sqrt x nonneg le_one := Real.le_sqrt_of_sq_le (sq_le nonneg le_one)
  sqrt_le_cbrt x nonneg le_one := by
    change √x ≤ x ^ (1 / 3 : ℝ)
    rw [Real.sqrt_eq_rpow]
    exact Real.rpow_le_rpow_of_exponent_ge' nonneg le_one (by norm_num) (by norm_num)
  cbrt_le_one x nonneg le_one := Real.rpow_le_one nonneg le_one (by norm_num)

end FuzzyControl
