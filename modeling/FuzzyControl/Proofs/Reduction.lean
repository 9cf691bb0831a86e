import Mathlib.Order.Bounds.Basic
import Mathlib.Tactic.Linarith
import FuzzyControl.Proofs.Crisp

/-!
# What samples are reduced to

In exact arithmetic no reduction of samples divides by zero, selects from nothing or looks for a
crossing that is not there.  The maxima lie in order, the bisector is the first sample at which
half of the membership is reached, and every reduction stays between the outermost abscissas.
-/

namespace FuzzyControl

open Scalar

namespace Defuzzification

/-! ## Reductions that may fail -/

section Partial

variable {α : Type} [Scalar α]

def quotient? (dividend divisor : α) : Option α :=
  if divisor == 0 then none else some (dividend / divisor)

/--
Reduces samples to one value, but fails where a quotient is one by zero, half of the membership is
not reached at any sample, or no abscissa is left to be chosen.
-/
def reduce? (method : Defuzzification) (samples : List (α × α)) : Option α :=
  if mass samples == 0 then some 0
  else
    match method with
    | .centroid => quotient? (total (samples.map fun sample => sample.1 * sample.2)) (mass samples)
    | .bisector => (quotient? (mass samples) (1 + 1)).bind fun half => crossing? half 0 samples
    | .meanOfMaxima =>
        quotient? (total (maxima samples)) (total ((maxima samples).map fun _ => 1))
    | .largestOfMaxima => choose? larger (maxima samples)
    | .smallestOfMaxima => choose? smaller (maxima samples)

end Partial

variable {K : Type} [Field K] [LinearOrder K]

/-- The samples whose degree no other sample exceeds. -/
def summit (samples : List (K × K)) : List (K × K) :=
  samples.filter fun sample => samples.all fun other => decide (other.2 ≤ sample.2)

/-! ## Selections -/

/-- Folding by an operation that gives the better of two values ends in the best of all. -/
theorem rel_foldl_of_prefers {β : Type} (worse : β → β → Prop)
    (reflexive : ∀ value, worse value value)
    (transitive : ∀ {first second third}, worse first second → worse second third →
      worse first third)
    {prefer : β → β → β} (first_worse : ∀ first second, worse first (prefer first second))
    (second_worse : ∀ first second, worse second (prefer first second)) (initial : β)
    (values : List β) : ∀ value ∈ initial :: values, worse value (values.foldl prefer initial) := by
  induction values generalizing initial with
  | nil => exact fun value member => List.mem_singleton.1 member ▸ reflexive value
  | cons first rest ih =>
      rw [List.foldl_cons]
      have best := ih (prefer initial first)
      have sofar := best _ List.mem_cons_self
      refine List.forall_mem_cons.2 ⟨transitive (first_worse initial first) sofar, ?_⟩
      refine List.forall_mem_cons.2 ⟨transitive (second_worse initial first) sofar, ?_⟩
      exact fun value member => best value (List.mem_cons_of_mem _ member)

section Choice

variable (functions : Elementary K)

theorem choose?_larger {values : List K} (nonempty : values ≠ []) :
    letI := functions.scalar
    ∃ value, choose? larger values = some value ∧ IsGreatest {x | x ∈ values} value := by
  let := functions.scalar
  obtain ⟨first, rest, rfl⟩ := List.exists_cons_of_ne_nil nonempty
  have best := rel_foldl_of_prefers (· ≤ ·) le_refl le_trans
    (fun x y => (le_max_left x y).trans_eq (functions.larger_eq_max x y).symm)
    (fun x y => (le_max_right x y).trans_eq (functions.larger_eq_max x y).symm) first rest
  exact ⟨_, choose?_cons functions larger first rest, foldl_mem_cons larger_selects first rest,
    best⟩

theorem choose?_smaller {values : List K} (nonempty : values ≠ []) :
    letI := functions.scalar
    ∃ value, choose? smaller values = some value ∧ IsLeast {x | x ∈ values} value := by
  let := functions.scalar
  obtain ⟨first, rest, rfl⟩ := List.exists_cons_of_ne_nil nonempty
  have best := rel_foldl_of_prefers (· ≥ ·) le_refl ge_trans
    (fun x y => (functions.smaller_eq_min x y).trans_le (min_le_left x y))
    (fun x y => (functions.smaller_eq_min x y).trans_le (min_le_right x y)) first rest
  exact ⟨_, choose?_cons functions smaller first rest, foldl_mem_cons smaller_selects first rest,
    best⟩

/-- The samples of peak degree are those that no other sample exceeds. -/
theorem maxima_eq {samples : List (K × K)} (nonneg : ∀ sample ∈ samples, 0 ≤ sample.2) :
    letI := functions.scalar
    maxima samples = (summit samples).map (·.1) := by
  let := functions.scalar
  refine congrArg _ (List.filter_congr fun sample member => ?_)
  rw [Bool.eq_iff_iff, beq_iff_eq, List.all_eq_true]
  simp only [decide_eq_true_eq]
  constructor
  · intro same other other_member
    exact same ▸ ((peak_le_iff functions).1 (le_refl _)).2 other other_member
  · intro unexceeded
    exact le_antisymm (((peak_le_iff functions).1 (le_refl _)).2 sample member)
      ((peak_le_iff functions).2 ⟨nonneg sample member, unexceeded⟩)

end Choice

/-! ## Crossings -/

section Crossing

variable (functions : Elementary K)

/-- A level between what there is before and after the samples is crossed at one of them. -/
theorem crossing?_of_reached [IsStrictOrderedRing K] {level sofar : K} {samples : List (K × K)} :
    letI := functions.scalar
    sofar < level → level ≤ sofar + mass samples →
      ∃ index sample, samples[index]? = some sample ∧
        crossing? level sofar samples = some sample.1 ∧
        level ≤ sofar + mass (samples.take (index + 1)) ∧
        ∀ count ≤ index, sofar + mass (samples.take count) < level := by
  let := functions.scalar
  simp only [mass_eq_sum functions]
  intro below reached
  induction samples generalizing sofar with
  | nil =>
      rw [List.map_nil, List.sum_nil, add_zero] at reached
      exact absurd reached (not_le.2 below)
  | cons sample rest ih =>
      rw [crossing?]
      split
      · rename_i crosses
        refine ⟨0, sample, rfl, rfl, by simpa using crosses, fun count least => ?_⟩
        rw [Nat.le_zero.1 least]
        simpa using below
      · rename_i before
        rw [List.map_cons, List.sum_cons, ← add_assoc] at reached
        obtain ⟨index, crossed, here, crosses, level_le, earlier⟩ := ih (not_le.1 before) reached
        refine ⟨index + 1, crossed, here, crosses, ?_, fun count least => ?_⟩
        · rw [List.take_succ_cons, List.map_cons, List.sum_cons, ← add_assoc]
          exact level_le
        · cases count with
          | zero => simpa using below
          | succ count =>
              rw [List.take_succ_cons, List.map_cons, List.sum_cons, ← add_assoc]
              exact earlier count (Nat.le_of_succ_le_succ least)

end Crossing

/-! ## Reductions -/

section Reduction

variable [IsStrictOrderedRing K] (functions : Elementary K) {samples : List (K × K)}

omit [Field K] [LinearOrder K] [IsStrictOrderedRing K] in
theorem ne_nil_of_mass_ne_zero {α : Type} [Scalar α] {samples : List (α × α)} :
    mass samples ≠ 0 → samples ≠ [] := by
  rintro some_mass rfl
  exact some_mass rfl

omit [IsStrictOrderedRing K] in
theorem quotient?_eq_some {dividend divisor : K} (nonzero : divisor ≠ 0) :
    letI := functions.scalar
    quotient? dividend divisor = some (dividend / divisor) := by
  let := functions.scalar
  rw [quotient?, beq_false_of_ne nonzero, if_neg Bool.false_ne_true]

variable (nonneg : ∀ sample ∈ samples, 0 ≤ sample.2)
include nonneg

omit [IsStrictOrderedRing K] in
theorem exists_sampledOver (some_sample : samples ≠ []) :
    ∃ least ∈ samples, ∃ greatest ∈ samples, SampledOver least.1 greatest.1 samples := by
  obtain ⟨least, least_member, greatest, greatest_member, between⟩ :=
    exists_extremes some_sample (·.1)
  exact ⟨least, least_member, greatest, greatest_member, between, nonneg⟩

/-- Where there is membership, some sample is exceeded by none. -/
theorem abscissas_summit_ne_nil :
    letI := functions.scalar
    mass samples ≠ 0 → (summit samples).map (·.1) ≠ [] := by
  let := functions.scalar
  intro some_mass
  obtain ⟨_, _, _, _, sampled⟩ := exists_sampledOver nonneg (ne_nil_of_mass_ne_zero some_mass)
  rw [← maxima_eq functions nonneg]
  exact maxima_ne_nil functions sampled some_mass

/-- Half of the membership is reached at some sample, and at none before it. -/
theorem crossing?_half :
    letI := functions.scalar
    mass samples ≠ 0 →
      ∃ index sample, samples[index]? = some sample ∧
        crossing? (mass samples / 2) 0 samples = some sample.1 ∧
        mass samples / 2 ≤ mass (samples.take (index + 1)) ∧
        ∀ count ≤ index, mass (samples.take count) < mass samples / 2 := by
  let := functions.scalar
  intro some_mass
  have mass_nonneg : 0 ≤ mass samples := by
    rw [mass_eq_sum functions]
    exact sum_weights_nonneg nonneg
  have mass_pos : 0 < mass samples := lt_of_le_of_ne mass_nonneg some_mass.symm
  have reached : mass samples / 2 ≤ 0 + mass samples := by linarith
  simpa only [zero_add] using crossing?_of_reached functions (half_pos mass_pos) reached

/-- Nothing fails when samples with membership are reduced. -/
theorem reduce?_eq_some (method : Defuzzification) :
    letI := functions.scalar
    mass samples ≠ 0 → method.reduce? samples = some (method.reduce samples) := by
  let := functions.scalar
  intro some_mass
  have some_maximal := abscissas_summit_ne_nil functions nonneg some_mass
  rw [← maxima_eq functions nonneg] at some_maximal
  have two_ne_zero : (1 + 1 : K) ≠ 0 := by
    rw [one_add_one_eq_two]
    exact two_ne_zero
  unfold reduce? reduce
  rw [beq_false_of_ne some_mass, if_neg Bool.false_ne_true, if_neg Bool.false_ne_true]
  cases method with
  | centroid => exact quotient?_eq_some functions some_mass
  | bisector =>
      obtain ⟨_, sample, _, crosses, -⟩ := crossing?_half functions nonneg some_mass
      rw [← one_add_one_eq_two] at crosses
      simp only [quotient?_eq_some functions two_ne_zero, Option.bind_some]
      rw [crosses, Option.getD_some]
  | meanOfMaxima =>
      refine quotient?_eq_some functions ?_
      rw [total_ones functions]
      exact Nat.cast_ne_zero.2 (mt List.length_eq_zero_iff.1 some_maximal)
  | largestOfMaxima =>
      obtain ⟨value, chosen, _⟩ := choose?_larger functions some_maximal
      simp only [chosen, Option.getD_some]
  | smallestOfMaxima =>
      obtain ⟨value, chosen, _⟩ := choose?_smaller functions some_maximal
      simp only [chosen, Option.getD_some]

theorem isGreatest_largestOfMaxima :
    letI := functions.scalar
    mass samples ≠ 0 →
      IsGreatest {x | x ∈ (summit samples).map (·.1)} (largestOfMaxima.reduce samples) := by
  let := functions.scalar
  intro some_mass
  obtain ⟨value, chosen, greatest⟩ :=
    choose?_larger functions (abscissas_summit_ne_nil functions nonneg some_mass)
  unfold reduce
  rw [beq_false_of_ne some_mass, if_neg Bool.false_ne_true]
  simp only [maxima_eq functions nonneg, chosen, Option.getD_some]
  exact greatest

theorem isLeast_smallestOfMaxima :
    letI := functions.scalar
    mass samples ≠ 0 →
      IsLeast {x | x ∈ (summit samples).map (·.1)} (smallestOfMaxima.reduce samples) := by
  let := functions.scalar
  intro some_mass
  obtain ⟨value, chosen, least⟩ :=
    choose?_smaller functions (abscissas_summit_ne_nil functions nonneg some_mass)
  unfold reduce
  rw [beq_false_of_ne some_mass, if_neg Bool.false_ne_true]
  simp only [maxima_eq functions nonneg, chosen, Option.getD_some]
  exact least

omit [IsStrictOrderedRing K] in
theorem meanOfMaxima_eq :
    letI := functions.scalar
    mass samples ≠ 0 → meanOfMaxima.reduce samples =
      ((summit samples).map (·.1)).sum / ((summit samples).length : K) := by
  let := functions.scalar
  intro some_mass
  unfold reduce
  rw [beq_false_of_ne some_mass, if_neg Bool.false_ne_true]
  simp only [maxima_eq functions nonneg, total_ones functions, functions.total_eq_sum,
    List.length_map]

theorem bisector_eq :
    letI := functions.scalar
    mass samples ≠ 0 →
      ∃ index sample, samples[index]? = some sample ∧ bisector.reduce samples = sample.1 ∧
        mass samples / 2 ≤ mass (samples.take (index + 1)) ∧
        ∀ count ≤ index, mass (samples.take count) < mass samples / 2 := by
  let := functions.scalar
  intro some_mass
  obtain ⟨index, sample, here, crosses, reached, earlier⟩ :=
    crossing?_half functions nonneg some_mass
  refine ⟨index, sample, here, ?_, reached, earlier⟩
  unfold reduce
  rw [beq_false_of_ne some_mass, if_neg Bool.false_ne_true]
  simp only [one_add_one_eq_two, crosses, Option.getD_some]

end Reduction

end Defuzzification

open Defuzzification

/--
In exact arithmetic samples without membership reduce to zero.  All others reduce without a
failure: the smallest and the largest of the maxima are the outermost abscissas of greatest
degree and lie around the mean of all of these, the bisector is the first abscissa at which half
of the membership is reached, and nothing leaves the range of the abscissas.
-/
theorem reductions_characterized {K : Type} [Field K] [LinearOrder K] [IsStrictOrderedRing K]
    (functions : Elementary K) :
    letI := functions.scalar
    ∀ samples : List (K × K), (∀ sample ∈ samples, 0 ≤ sample.2) →
      (mass samples = 0 → ∀ method : Defuzzification, method.reduce samples = 0) ∧
      (mass samples ≠ 0 →
        (∀ method : Defuzzification, method.reduce? samples = some (method.reduce samples)) ∧
        IsLeast {x | x ∈ (summit samples).map (·.1)} (smallestOfMaxima.reduce samples) ∧
        IsGreatest {x | x ∈ (summit samples).map (·.1)} (largestOfMaxima.reduce samples) ∧
        meanOfMaxima.reduce samples =
          ((summit samples).map (·.1)).sum / ((summit samples).length : K) ∧
        smallestOfMaxima.reduce samples ≤ meanOfMaxima.reduce samples ∧
        meanOfMaxima.reduce samples ≤ largestOfMaxima.reduce samples ∧
        (∃ index sample, samples[index]? = some sample ∧ bisector.reduce samples = sample.1 ∧
          mass samples / 2 ≤ mass (samples.take (index + 1)) ∧
          ∀ count ≤ index, mass (samples.take count) < mass samples / 2) ∧
        ∃ least ∈ samples, ∃ greatest ∈ samples,
          (∀ sample ∈ samples, least.1 ≤ sample.1 ∧ sample.1 ≤ greatest.1) ∧
          ∀ method : Defuzzification,
            least.1 ≤ method.reduce samples ∧ method.reduce samples ≤ greatest.1) := by
  let := functions.scalar
  intro samples nonneg
  refine ⟨fun massless method => reduce_of_massless functions method massless, fun some_mass => ?_⟩
  have least := isLeast_smallestOfMaxima functions nonneg some_mass
  have greatest := isGreatest_largestOfMaxima functions nonneg some_mass
  have mean_eq := meanOfMaxima_eq functions nonneg some_mass
  have some_abscissa := abscissas_summit_ne_nil functions nonneg some_mass
  have between := average_mem some_abscissa fun x member => ⟨least.2 member, greatest.2 member⟩
  rw [List.length_map, ← mean_eq] at between
  obtain ⟨first, first_member, last, last_member, sampled⟩ :=
    exists_sampledOver nonneg (ne_nil_of_mass_ne_zero some_mass)
  exact ⟨fun method => reduce?_eq_some functions nonneg method some_mass, least, greatest, mean_eq,
    between.1, between.2, bisector_eq functions nonneg some_mass,
    first, first_member, last, last_member, sampled.inside,
    fun method => reduce_mem functions sampled method some_mass⟩

def twinPeaks : List (ℚ × ℚ) :=
  [(3, 1), (1, 1 / 2), (4, 1), (2, 0)]

theorem twinPeaks_nonneg : ∀ sample ∈ twinPeaks, 0 ≤ sample.2 := by
  simp only [twinPeaks, List.forall_mem_cons]
  exact ⟨by decide +kernel, by decide +kernel, by decide +kernel, by decide +kernel,
    List.forall_mem_nil _⟩

theorem twinPeaks_reduce :
    mass twinPeaks ≠ 0 ∧
    smallestOfMaxima.reduce twinPeaks = 3 ∧ largestOfMaxima.reduce twinPeaks = 4 ∧
    IsLeast {x | x ∈ (summit twinPeaks).map (·.1)} 3 ∧
    meanOfMaxima.reduce twinPeaks ≤ 4 ∧
    (∀ method : Defuzzification, method.reduce? twinPeaks = some (method.reduce twinPeaks)) ∧
    (∃ index sample, twinPeaks[index]? = some sample ∧ bisector.reduce twinPeaks = sample.1 ∧
      mass twinPeaks / 2 ≤ mass (twinPeaks.take (index + 1)) ∧
      ∀ count ≤ index, mass (twinPeaks.take count) < mass twinPeaks / 2) ∧
    ∀ method : Defuzzification, method.reduce [(1, 0), (2, (0 : ℚ))] = 0 := by
  have flat_nonneg : ∀ sample ∈ [((1 : ℚ), (0 : ℚ)), (2, 0)], 0 ≤ sample.2 := by
    simp only [List.forall_mem_cons]
    exact ⟨by decide +kernel, by decide +kernel, List.forall_mem_nil _⟩
  have some_mass : mass twinPeaks ≠ 0 := by decide +kernel
  have smallest_eq : smallestOfMaxima.reduce twinPeaks = 3 := by decide +kernel
  have largest_eq : largestOfMaxima.reduce twinPeaks = 4 := by decide +kernel
  obtain ⟨total, least, -, -, -, mean_le, halved, -⟩ :=
    (reductions_characterized Elementary.rational twinPeaks twinPeaks_nonneg).2 some_mass
  have zero := (reductions_characterized Elementary.rational _ flat_nonneg).1 (by decide +kernel)
  exact ⟨some_mass, smallest_eq, largest_eq, smallest_eq ▸ least, largest_eq ▸ mean_le, total,
    halved, zero⟩

end FuzzyControl
