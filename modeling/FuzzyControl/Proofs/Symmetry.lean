import Mathlib.Tactic.Ring
import FuzzyControl.Proofs.UnitChange

/-!
# Symmetric sets

In exact arithmetic a grid is symmetric about the middle of its interval, its last abscissa
included.  So the samples of a set that is symmetric there read the same from both ends: their
means lie in the middle, and the outermost maxima lie equally far from it.
-/

namespace FuzzyControl

open Scalar

variable {K : Type} [Field K] [LinearOrder K]

/-- The abscissa that lies as far below the upper end of an interval as `x` above the lower end. -/
def mirror (low high x : K) : K :=
  low + high - x

omit [LinearOrder K] in
theorem mirror_inj {low high x y : K} : mirror low high x = mirror low high y ↔ x = y :=
  sub_right_inj

theorem mirror_lt_mirror_iff [IsStrictOrderedRing K] {low high x y : K} :
    mirror low high x < mirror low high y ↔ y < x :=
  sub_lt_sub_iff_left (low + high)

omit [LinearOrder K] in
theorem mirror_sub_mirror (low high x y : K) :
    mirror low high x - mirror low high y = y - x :=
  sub_sub_sub_cancel_left x y (low + high)

/-! ## Grids -/

namespace Grid

variable [IsStrictOrderedRing K] (functions : Elementary K) {low high : K} {count position : Nat}

/-- The last abscissa is not set apart from the others: it is where the steps lead to. -/
theorem abscissa_of_lt (several : 1 < count) :
    letI := functions.scalar
    (spanning low high count).abscissa position =
      low + (high - low) / ((count - 1 : Nat) : K) * (position : K) := by
  let := functions.scalar
  have steps_ne_zero : ((count - 1 : Nat) : K) ≠ 0 := Nat.cast_ne_zero.2 (by omega)
  rw [abscissa_spanning, if_neg (Nat.not_le.2 several)]
  split
  · rename_i last
    rw [last.2, div_mul_cancel₀ _ steps_ne_zero, add_sub_cancel]
  · rfl

theorem abscissa_mirror (several : 1 < count) (inside : position < count) :
    letI := functions.scalar
    (spanning low high count).abscissa (count - 1 - position) =
      mirror low high ((spanning low high count).abscissa position) := by
  let := functions.scalar
  have steps_ne_zero : ((count - 1 : Nat) : K) ≠ 0 := Nat.cast_ne_zero.2 (by omega)
  rw [abscissa_of_lt functions several, abscissa_of_lt functions several,
    Nat.cast_sub (Nat.le_sub_one_of_lt inside), mul_sub, div_mul_cancel₀ _ steps_ne_zero]
  unfold mirror
  ring

/-- Read backwards, a grid with both ends gives the mirrored abscissas. -/
theorem rest_reverse (several : 1 < count) :
    letI := functions.scalar
    (spanning low high count).rest.reverse =
      (spanning low high count).rest.map (mirror low high) := by
  let := functions.scalar
  have positions_eq : List.range' (spanning low high count).next
      (spanning low high count).remaining = List.range count :=
    (List.range_eq_range' (n := count)).symm
  rw [rest, positions_eq, ← List.map_reverse, List.range_eq_range', List.reverse_range',
    ← List.range_eq_range', List.map_map, List.map_map]
  refine List.map_congr_left fun position inside => ?_
  rw [Function.comp_apply, Function.comp_apply, Nat.zero_add,
    abscissa_mirror functions several (List.mem_range.1 inside)]

end Grid

/-! ## Means -/

section Mean

variable {ρ : Type} {items : List ρ} {change : ρ → ρ} (reversed : items.reverse = items.map change)
include reversed

omit [LinearOrder K] in
theorem sum_map_change (term : ρ → K) :
    (items.map fun item => term (change item)).sum = (items.map term).sum := by
  calc (items.map fun item => term (change item)).sum
      = ((items.map change).map term).sum := by rw [List.map_map]; rfl
    _ = ((items.map term).reverse).sum := by rw [← reversed, List.map_reverse]
    _ = (items.map term).sum := List.sum_reverse _

/-- Every value is met by its mirror image, which has the same weight. -/
theorem mean_eq_middle [IsStrictOrderedRing K] {value weight : ρ → K} {low high : K}
    (value_eq : ∀ item, value (change item) = mirror low high (value item))
    (weight_eq : ∀ item, weight (change item) = weight item)
    (some_weight : (items.map weight).sum ≠ 0) :
    (items.map fun item => value item * weight item).sum / (items.map weight).sum =
      (low + high) / 2 := by
  have paired : (items.map fun item => value item * weight item).sum +
      (items.map fun item => value item * weight item).sum =
        (low + high) * (items.map weight).sum := by
    calc (items.map fun item => value item * weight item).sum +
          (items.map fun item => value item * weight item).sum
        = (items.map fun item => value item * weight item).sum +
            (items.map fun item => value (change item) * weight (change item)).sum := by
          rw [sum_map_change reversed fun item => value item * weight item]
      _ = (items.map fun item => (low + high) * weight item).sum := by
          rw [← List.sum_map_add]
          refine congrArg List.sum (List.map_congr_left fun item _ => ?_)
          rw [value_eq, weight_eq, mirror]
          ring
      _ = (low + high) * (items.map weight).sum := List.sum_map_mul_left _ _ _
  rw [div_eq_div_iff some_weight two_ne_zero, mul_two, paired]

end Mean

/-! ## Shapes -/

/-- A triangle is mirrored together with its corners. -/
theorem FuzzySet.degree_triangular_mirror [IsStrictOrderedRing K] (functions : Elementary K)
    (low high left peak right x : K) :
    letI := functions.scalar
    (triangular (mirror low high right) (mirror low high peak) (mirror low high left)).degree
      (mirror low high x) = (triangular left peak right).degree x := by
  let := functions.scalar
  refine congrArg toDegree ?_
  simp only [triangleAt, beq_iff_eq, mirror_inj, mirror_lt_mirror_iff, mirror_sub_mirror]
  -- the sides change places, but no abscissa is on both
  rcases lt_trichotomy x peak with before | here | behind
  · simp only [before.ne, before, before.not_gt, if_false, false_and, and_comm]
  · rw [if_pos here, if_pos here]
  · simp only [behind.ne', behind, behind.not_gt, if_false, false_and, and_comm]

/-! ## Samples -/

namespace Defuzzification

def mirrorSample (low high : K) (sample : K × K) : K × K :=
  (mirror low high sample.1, sample.2)

/-- Read backwards, the samples are those at the mirrored abscissas. -/
def Mirrored (low high : K) (samples : List (K × K)) : Prop :=
  samples.reverse = samples.map (mirrorSample low high)

variable (functions : Elementary K) {low high : K} {samples : List (K × K)}

namespace Mirrored

variable (mirrored : Mirrored low high samples)
include mirrored

theorem maxima_reverse :
    letI := functions.scalar
    (maxima samples).reverse = (maxima samples).map (mirror low high) := by
  let := functions.scalar
  -- whether a sample is maximal depends on its degree alone
  have same_filter : (samples.filter (·.2 == peak samples)).reverse =
      (samples.filter (·.2 == peak samples)).map (mirrorSample low high) := by
    rw [← List.filter_reverse, mirrored, List.filter_map]
    rfl
  rw [maxima, ← List.map_reverse, same_filter, List.map_map, List.map_map]
  rfl

theorem mirror_mem_maxima {x : K} :
    letI := functions.scalar
    x ∈ maxima samples → mirror low high x ∈ maxima samples := by
  let := functions.scalar
  intro maximal
  rw [← List.mem_reverse, mirrored.maxima_reverse functions]
  exact List.mem_map_of_mem maximal

variable [IsStrictOrderedRing K]

theorem centroid_eq :
    letI := functions.scalar
    mass samples ≠ 0 → centroid.reduce samples = (low + high) / 2 := by
  let := functions.scalar
  intro some_mass
  unfold reduce
  rw [beq_false_of_ne some_mass, if_neg Bool.false_ne_true]
  rw [mass_eq_sum functions] at some_mass
  simp only [mass_eq_sum functions, functions.total_eq_sum]
  exact mean_eq_middle mirrored (fun _ => rfl) (fun _ => rfl) some_mass

variable (nonneg : ∀ sample ∈ samples, 0 ≤ sample.2)
include nonneg

theorem meanOfMaxima_eq :
    letI := functions.scalar
    mass samples ≠ 0 → meanOfMaxima.reduce samples = (low + high) / 2 := by
  let := functions.scalar
  intro some_mass
  have some_maximal := abscissas_summit_ne_nil functions nonneg some_mass
  rw [← maxima_eq functions nonneg] at some_maximal
  have some_weight : ((maxima samples).map fun _ => (1 : K)).sum ≠ 0 := by
    rw [← functions.total_eq_sum, total_ones functions]
    exact Nat.cast_ne_zero.2 (mt List.length_eq_zero_iff.1 some_maximal)
  have middle : ((maxima samples).map fun x => x * 1).sum /
      ((maxima samples).map fun _ => (1 : K)).sum = (low + high) / 2 :=
    mean_eq_middle (mirrored.maxima_reverse functions) (fun _ => rfl) (fun _ => rfl) some_weight
  unfold reduce
  rw [beq_false_of_ne some_mass, if_neg Bool.false_ne_true]
  simpa only [functions.total_eq_sum, mul_one, List.map_id'] using middle

/-- The mirror image of the least maximum is the greatest one. -/
theorem outermost_add :
    letI := functions.scalar
    mass samples ≠ 0 →
      smallestOfMaxima.reduce samples + largestOfMaxima.reduce samples = low + high := by
  let := functions.scalar
  intro some_mass
  have least := isLeast_smallestOfMaxima functions nonneg some_mass
  have greatest := isGreatest_largestOfMaxima functions nonneg some_mass
  rw [← maxima_eq functions nonneg] at least greatest
  have below : mirror low high (smallestOfMaxima.reduce samples) ≤
      largestOfMaxima.reduce samples :=
    greatest.2 (mirrored.mirror_mem_maxima functions least.1)
  have above : smallestOfMaxima.reduce samples ≤
      mirror low high (largestOfMaxima.reduce samples) :=
    least.2 (mirrored.mirror_mem_maxima functions greatest.1)
  unfold mirror at below above
  linarith

end Mirrored

/-- A set that is symmetric on the interval has symmetric samples. -/
theorem mirrored_samples [IsStrictOrderedRing K] {set : FuzzySet K} (ordered : low ≤ high) :
    letI := functions.scalar
    (∀ x, low ≤ x → x ≤ high → set.degree (mirror low high x) = set.degree x) →
      Mirrored low high (Defuzzification.samples set low high) := by
  let := functions.scalar
  intro symmetric
  unfold Mirrored Defuzzification.samples
  rw [← List.map_reverse, Grid.rest_reverse functions (by decide), List.map_map, List.map_map]
  refine List.map_congr_left fun x on_grid => ?_
  obtain ⟨low_le, le_high⟩ := Grid.mem_spanning functions ordered on_grid
  rw [Function.comp_apply, Function.comp_apply, symmetric x low_le le_high]
  rfl

end Defuzzification

open Defuzzification

/--
In exact arithmetic a set that is symmetric about the middle of an interval, and that has
membership at some sample, has its center of gravity and the mean of its maxima in the middle.
The smallest and the largest of its maxima lie equally far from there.
-/
theorem symmetric_sets_balance {K : Type} [Field K] [LinearOrder K] [IsStrictOrderedRing K]
    (functions : Elementary K) :
    letI := functions.scalar
    ∀ (set : FuzzySet K) (low high : K), low < high →
      (∀ x, low ≤ x → x ≤ high → set.degree (low + high - x) = set.degree x) →
      (∃ x ∈ (Grid.spanning low high 101).rest, set.degree x ≠ 0) →
      centroid.crisp set low high = (low + high) / 2 ∧
      meanOfMaxima.crisp set low high = (low + high) / 2 ∧
      smallestOfMaxima.crisp set low high + largestOfMaxima.crisp set low high = low + high := by
  let := functions.scalar
  intro set low high ordered symmetric some_degree
  have mirrored := mirrored_samples functions ordered.le symmetric
  have nonneg := degree_nonneg_of_mem_samples functions set low high
  have some_mass := mass_samples_ne_zero functions some_degree
  exact ⟨mirrored.centroid_eq functions some_mass,
    mirrored.meanOfMaxima_eq functions nonneg some_mass,
    mirrored.outermost_add functions nonneg some_mass⟩

def arches : FuzzySet ℚ :=
  .composite .maximum [.triangular 0 1 2, .triangular 8 9 10]

theorem arches_balance :
    arches.degree 1 ≠ 0 ∧ centroid.crisp arches 0 10 = 5 ∧ meanOfMaxima.crisp arches 0 10 = 5 ∧
      smallestOfMaxima.crisp arches 0 10 = 1 ∧ largestOfMaxima.crisp arches 0 10 = 9 := by
  have symmetric (x : ℚ) : arches.degree (0 + 10 - x) = arches.degree x := by
    have left_eq := FuzzySet.degree_triangular_mirror Elementary.rational 0 10 8 9 10 x
    have right_eq := FuzzySet.degree_triangular_mirror Elementary.rational 0 10 0 1 2 x
    have nearest : mirror (0 : ℚ) 10 10 = 0 ∧ mirror (0 : ℚ) 10 9 = 1 ∧
        mirror (0 : ℚ) 10 8 = 2 := by
      decide +kernel
    have farthest : mirror (0 : ℚ) 10 2 = 8 ∧ mirror (0 : ℚ) 10 1 = 9 ∧
        mirror (0 : ℚ) 10 0 = 10 := by
      decide +kernel
    rw [nearest.1, nearest.2.1, nearest.2.2, mirror] at left_eq
    rw [farthest.1, farthest.2.1, farthest.2.2, mirror] at right_eq
    change toDegree (larger _ _) = toDegree (larger _ _)
    rw [left_eq, right_eq, Elementary.rational.larger_eq_max, Elementary.rational.larger_eq_max,
      max_comm]
  have some_degree : arches.degree 1 ≠ 0 := by decide +kernel
  obtain ⟨centroid_eq, mean_eq, add_eq⟩ := symmetric_sets_balance Elementary.rational arches 0 10
    (by decide +kernel) (fun x _ _ => symmetric x) ⟨1, by decide +kernel, some_degree⟩
  have smallest_eq : smallestOfMaxima.crisp arches 0 10 = 1 := by decide +kernel
  have middle_eq : ((0 : ℚ) + 10) / 2 = 5 := by decide +kernel
  rw [middle_eq] at centroid_eq mean_eq
  rw [smallest_eq] at add_eq
  exact ⟨some_degree, centroid_eq, mean_eq, smallest_eq, by linarith⟩

end FuzzyControl
