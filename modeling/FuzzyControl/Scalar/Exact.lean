import FuzzyControl.Scalar
import Mathlib.Algebra.Order.Field.Basic

/-!
# Exact arithmetic

An ordered field with roots and an exponential of one's choice is a domain of
scalars.  Every definition of the library has an exact reading there, in which the
usual laws of arithmetic hold.
-/

namespace FuzzyControl

/-- The functions that an ordered field does not bring along. -/
structure Elementary (K : Type) where
  sqrt : K → K
  cbrt : K → K
  exp : K → K
  posInf : K
  negInf : K

namespace Elementary

variable {K : Type} [Field K] [LinearOrder K]

@[reducible]
def scalar (functions : Elementary K) : Scalar K where
  decidableLT := inferInstance
  decidableLE := inferInstance
  sqrt := functions.sqrt
  cbrt := functions.cbrt
  exp := functions.exp
  posInf := functions.posInf
  negInf := functions.negInf
  precedes first second := decide (first ≤ second)

structure Bounded [IsStrictOrderedRing K] (functions : Elementary K) : Prop where
  sqrt_mem : ∀ x, 0 ≤ x → x ≤ 1 → 0 ≤ functions.sqrt x ∧ functions.sqrt x ≤ 1
  cbrt_mem : ∀ x, 0 ≤ x → x ≤ 1 → 0 ≤ functions.cbrt x ∧ functions.cbrt x ≤ 1
  exp_mem : ∀ x, x ≤ 0 → 0 ≤ functions.exp x ∧ functions.exp x ≤ 1

structure RaisingRoots [IsStrictOrderedRing K] (functions : Elementary K) : Prop where
  sqrt_mono : ∀ x y, 0 ≤ x → x ≤ y → y ≤ 1 → functions.sqrt x ≤ functions.sqrt y
  cbrt_mono : ∀ x y, 0 ≤ x → x ≤ y → y ≤ 1 → functions.cbrt x ≤ functions.cbrt y
  le_sqrt : ∀ x, 0 ≤ x → x ≤ 1 → x ≤ functions.sqrt x
  sqrt_le_cbrt : ∀ x, 0 ≤ x → x ≤ 1 → functions.sqrt x ≤ functions.cbrt x
  cbrt_le_one : ∀ x, 0 ≤ x → x ≤ 1 → functions.cbrt x ≤ 1

section Lattice

variable (functions : Elementary K)

theorem larger_eq_max (first second : K) :
    letI := functions.scalar
    Scalar.larger first second = max first second := by
  simp only [Scalar.larger, Scalar.isNumber, beq_self_eq_true, if_true]
  split
  · rename_i less
    exact (max_eq_left less.le).symm
  · rename_i notLess
    exact (max_eq_right (not_lt.1 notLess)).symm

theorem smaller_eq_min (first second : K) :
    letI := functions.scalar
    Scalar.smaller first second = min first second := by
  simp only [Scalar.smaller, Scalar.isNumber, beq_self_eq_true, if_true]
  split
  · rename_i less
    exact (min_eq_left less.le).symm
  · rename_i notLess
    exact (min_eq_right (not_lt.1 notLess)).symm

end Lattice

end Elementary

end FuzzyControl
