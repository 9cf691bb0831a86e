import Mathlib.Algebra.Order.Field.Basic
import Mathlib.Data.List.Forall2
import FuzzyControl.Proofs.Arithmetic
import FuzzyControl.Proofs.Leniency
import FuzzyControl.Proofs.Outcome
import FuzzyControl.Proofs.PiecewiseLinear

/-!
# Upper bounds of degrees

The supremum of a set is read off its parameters: one for the shapes that reach it, the
greatest ordinate for points, and the link of the children's suprema for composites.  If the
parameters were checked, no degree exceeds it, because every link keeps the order of degrees.
-/

namespace FuzzyControl

open Scalar

namespace FuzzySet

/-- The set comes from the checking functions or combines sets that do. -/
inductive Built {α : Type} [Scalar α] : FuzzySet α → Prop where
  | ofTriangle {left peak right : α} {set : FuzzySet α}
      (accepted : ofTriangle left peak right = .ok set) : Built set
  | ofTrapezoid {left coreLeft coreRight right : α} {set : FuzzySet α}
      (accepted : ofTrapezoid left coreLeft coreRight right = .ok set) : Built set
  | ofGaussian {center spread : α} {set : FuzzySet α}
      (accepted : ofGaussian center spread = .ok set) : Built set
  | ofConstant {value : α} {set : FuzzySet α} (accepted : ofConstant value = .ok set) : Built set
  | ofPoints {points : List (α × α)} {set : FuzzySet α} (accepted : ofPoints points = .ok set) :
      Built set
  | composite (link : Link) {children : List (FuzzySet α)}
      (built : ∀ child ∈ children, Built child) : Built (.composite link children)

end FuzzySet

namespace Elementary

variable {K : Type} [Field K] [LinearOrder K] [IsStrictOrderedRing K] (functions : Elementary K)

/-- One bounds the degrees of every set. -/
theorem raised_one (set : FuzzySet K) (x : K) :
    letI := functions.scalar
    Raised (set.degree x) 1 := by
  let := functions.scalar
  have inside := functions.isDegree_degree set x
  exact ⟨inside, ⟨zero_le_one, le_refl 1⟩, inside.2⟩

/-- No interpolation rises above the greatest ordinate. -/
theorem raised_pointwise {points : List (K × K)} (x : K) :
    letI := functions.scalar
    (∀ point ∈ points, IsDegree point.2) →
      Raised ((FuzzySet.pointwise points).degree x) (FuzzySet.pointwise points).supremum := by
  let := functions.scalar
  intro inside
  have supremum_eq : (FuzzySet.pointwise points).supremum = (points.map (·.2)).foldl max 0 :=
    functions.foldl_larger _ 0
  rw [supremum_eq, FuzzySet.degree_pointwise functions inside]
  obtain ⟨nonneg, ordinate_le⟩ := foldl_max_le_iff.1 (le_refl ((points.map (·.2)).foldl max 0))
  have supremum_le : (points.map (·.2)).foldl max 0 ≤ 1 := by
    refine foldl_max_le_iff.2 ⟨zero_le_one, List.forall_mem_map.2 fun point member => ?_⟩
    exact (inside point member).2
  have bounded : ∀ point ∈ points, 0 ≤ point.2 ∧ point.2 ≤ (points.map (·.2)).foldl max 0 :=
    fun point member => ⟨(inside point member).1, List.forall_mem_map.1 ordinate_le point member⟩
  obtain ⟨value_nonneg, value_le⟩ := Interpolation.value_mem functions nonneg bounded x
  exact ⟨⟨value_nonneg, value_le.trans supremum_le⟩, ⟨nonneg, supremum_le⟩, value_le⟩

/-- The supremum bounds every set that was put together from checked parameters. -/
theorem raised_supremum {set : FuzzySet K} :
    letI := functions.scalar
    set.Built → ∀ x, Raised (set.degree x) set.supremum := by
  let := functions.scalar
  intro built x
  induction built with
  | ofTriangle accepted =>
      obtain ⟨_, rfl⟩ := Outcome.ite_eq_ok_iff.1 accepted
      exact functions.raised_one _ x
  | ofTrapezoid accepted =>
      obtain ⟨_, rfl⟩ := Outcome.ite_eq_ok_iff.1 accepted
      exact functions.raised_one _ x
  | ofGaussian accepted =>
      obtain ⟨_, rfl⟩ := Outcome.ite_eq_ok_iff.1 accepted
      exact functions.raised_one _ x
  | ofConstant accepted =>
      obtain ⟨inside, rfl⟩ := Outcome.ite_eq_ok_iff.1 accepted
      rw [FuzzySet.degree, functions.toDegree_eq inside]
      exact ⟨inside, inside, le_refl _⟩
  | ofPoints accepted =>
      obtain ⟨inside, rfl⟩ := (FuzzySet.ofPoints_eq_ok_iff functions).1 accepted
      have sorts := Interpolation.stablySorts_sortPoints functions
      exact functions.raised_pointwise x fun point member =>
        inside point ((sorts _).perm.mem_iff.1 member)
  | composite link built ih =>
      rw [functions.degree_composite, FuzzySet.supremum, FuzzySet.suprema_eq_map]
      refine functions.raised_fold_of_apply (functions.raised_link link) ?_
      exact List.forall₂_map_left_iff.2 (List.forall₂_map_right_iff.2 (List.forall₂_same.2 ih))

end Elementary

/--
In exact arithmetic the degrees of a set from the checking functions, or of any composite of
such sets, lie between zero and its supremum, and the supremum is at most one.
-/
theorem degree_le_supremum {K : Type} [Field K] [LinearOrder K] [IsStrictOrderedRing K]
    (functions : Elementary K) :
    letI := functions.scalar
    ∀ set : FuzzySet K, set.Built → ∀ x,
      0 ≤ set.degree x ∧ set.degree x ≤ set.supremum ∧ set.supremum ≤ 1 := by
  let := functions.scalar
  intro set built x
  have raised := functions.raised_supremum built x
  exact ⟨raised.lower_inside.1, raised.le, raised.upper_inside.2⟩

def slope : List (ℚ × ℚ) :=
  [(0, 0), (2, 1 / 2)]

/-- A slope with a step at one, where the triangle under the drastic product peaks. -/
def stepped : FuzzySet ℚ :=
  .composite .boundedSum [.composite .drasticProduct [.constant (1 / 4), .triangular 0 1 2],
    .pointwise slope, .composite .maximum []]

theorem stepped_bounded :
    stepped.Built ∧ stepped.degree 1 = 1 / 2 ∧ stepped.degree 1 ≤ stepped.supremum ∧
      stepped.supremum = 3 / 4 := by
  have sorted : FuzzySet.sortPoints slope = slope :=
    List.mergeSort_of_pairwise (by decide +kernel)
  have slope_built : (FuzzySet.pointwise slope).Built := by
    refine .ofPoints ((FuzzySet.ofPoints_eq_ok_iff Elementary.rational).2 ⟨?_, by rw [sorted]⟩)
    simp only [slope, List.forall_mem_cons]
    exact ⟨by decide +kernel, by decide +kernel, List.forall_mem_nil _⟩
  have level : FuzzySet.ofConstant (1 / 4 : ℚ) = .ok (.constant (1 / 4)) :=
    Outcome.ite_eq_ok_iff.2 ⟨by decide +kernel, rfl⟩
  have triangle : FuzzySet.ofTriangle 0 1 (2 : ℚ) = .ok (.triangular 0 1 2) :=
    Outcome.ite_eq_ok_iff.2 ⟨by decide +kernel, rfl⟩
  have spike_built : (FuzzySet.composite .drasticProduct
      [.constant (1 / 4 : ℚ), .triangular 0 1 2]).Built := by
    refine .composite _ ?_
    simp only [List.forall_mem_cons]
    exact ⟨.ofConstant level, .ofTriangle triangle, List.forall_mem_nil _⟩
  have built : stepped.Built := by
    refine .composite _ ?_
    simp only [List.forall_mem_cons]
    exact ⟨spike_built, slope_built, .composite _ (List.forall_mem_nil _), List.forall_mem_nil _⟩
  exact ⟨built, by decide +kernel,
    (degree_le_supremum Elementary.rational stepped built 1).2.1, by decide +kernel⟩

end FuzzyControl
