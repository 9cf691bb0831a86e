import Mathlib.Tactic.FieldSimp
import Mathlib.Tactic.Ring
import FuzzyControl.Proofs.Reduction

/-!
# Other units

Abscissas may be given in another unit, and degrees on another scale.  The reductions follow a
change of the unit and do not see the scale, and a fuzzy set that is restated in the other unit
has the same degrees there.  So crisp values are converted as all other abscissas are.
-/

namespace FuzzyControl

open Scalar

/-- A change of the unit of abscissas, which keeps their order. -/
structure UnitChange (K : Type) [Zero K] [LT K] where
  stretch : K
  shift : K
  stretch_pos : 0 < stretch

variable {K : Type} [Field K] [LinearOrder K]

namespace UnitChange

def convert (change : UnitChange K) (x : K) : K :=
  change.stretch * x + change.shift

/-- A sample in the other unit, and with its degree on another scale. -/
def convertSample (change : UnitChange K) (scale : K) (sample : K × K) : K × K :=
  (change.convert sample.1, scale * sample.2)

variable [IsStrictOrderedRing K] (change : UnitChange K)

theorem convert_strictMono : StrictMono change.convert := fun _ _ less =>
  add_lt_add_left (mul_lt_mul_of_pos_left less change.stretch_pos) change.shift

omit [IsStrictOrderedRing K] in
theorem convert_sub (x y : K) :
    change.convert x - change.convert y = change.stretch * (x - y) := by
  unfold convert
  ring

omit [IsStrictOrderedRing K] in
theorem convertSample_one (sample : K × K) :
    change.convertSample 1 sample =
      (change.stretch * sample.1 + change.shift, sample.2) := by
  rw [convertSample, convert, one_mul]

omit [IsStrictOrderedRing K] in
theorem stretch_ne_zero : change.stretch ≠ 0 :=
  change.stretch_pos.ne'

end UnitChange

/-! ## Sets -/

namespace FuzzySet

mutual

/-- The set that has the degrees of a set at the converted abscissas. -/
def restate (change : UnitChange K) : FuzzySet K → FuzzySet K
  | triangular left peak right =>
      triangular (change.convert left) (change.convert peak) (change.convert right)
  | trapezoidal left coreLeft coreRight right =>
      trapezoidal (change.convert left) (change.convert coreLeft) (change.convert coreRight)
        (change.convert right)
  | gaussian center spread => gaussian (change.convert center) (change.stretch * spread)
  | constant value => constant value
  | composite link children => composite link (restateAll change children)
  | pointwise points => pointwise (points.map fun point => (change.convert point.1, point.2))

def restateAll (change : UnitChange K) : List (FuzzySet K) → List (FuzzySet K)
  | [] => []
  | child :: rest => restate change child :: restateAll change rest

end

section Shape

variable [IsStrictOrderedRing K] (functions : Elementary K) (change : UnitChange K)

theorem triangleAt_convert (left peak right x : K) :
    letI := functions.scalar
    triangleAt (change.convert left) (change.convert peak) (change.convert right)
      (change.convert x) = triangleAt left peak right x := by
  let := functions.scalar
  simp only [triangleAt, beq_iff_eq, change.convert_strictMono.lt_iff_lt,
    change.convert_strictMono.injective.eq_iff, change.convert_sub,
    mul_div_mul_left _ _ change.stretch_ne_zero]

theorem trapezoidAt_convert (left coreLeft coreRight right x : K) :
    letI := functions.scalar
    trapezoidAt (change.convert left) (change.convert coreLeft) (change.convert coreRight)
      (change.convert right) (change.convert x) =
        trapezoidAt left coreLeft coreRight right x := by
  let := functions.scalar
  simp only [trapezoidAt, change.convert_strictMono.lt_iff_lt,
    change.convert_strictMono.le_iff_le, change.convert_sub,
    mul_div_mul_left _ _ change.stretch_ne_zero]

theorem gaussianAt_convert (center spread x : K) :
    letI := functions.scalar
    gaussianAt (change.convert center) (change.stretch * spread) (change.convert x) =
      gaussianAt center spread x := by
  let := functions.scalar
  simp only [gaussianAt, beq_iff_eq, change.convert_strictMono.injective.eq_iff, square,
    change.convert_sub]
  have dividend_eq : -(change.stretch * (x - center) * (change.stretch * (x - center))) =
      change.stretch * change.stretch * -((x - center) * (x - center)) := by
    ring
  have divisor_eq : ((2 : Nat) : K) * (change.stretch * spread * (change.stretch * spread)) =
      change.stretch * change.stretch * (((2 : Nat) : K) * (spread * spread)) := by
    ring
  have same := mul_div_mul_left (-((x - center) * (x - center)))
    (((2 : Nat) : K) * (spread * spread))
    (mul_ne_zero change.stretch_ne_zero change.stretch_ne_zero)
  rw [← dividend_eq, ← divisor_eq] at same
  rw [same]

theorem between_convert (left right : K × K) (x : K) :
    letI := functions.scalar
    Interpolation.between (change.convert left.1, left.2) (change.convert right.1, right.2)
      (change.convert x) = Interpolation.between left right x := by
  let := functions.scalar
  simp only [Interpolation.between, beq_iff_eq, change.convert_strictMono.injective.eq_iff,
    change.convert_sub, mul_assoc, mul_div_mul_left _ _ change.stretch_ne_zero]

theorem inSegments_convert (outside x : K) (points : List (K × K)) :
    letI := functions.scalar
    Interpolation.inSegments outside (change.convert x)
      (points.map fun point => (change.convert point.1, point.2)) =
        Interpolation.inSegments outside x points := by
  let := functions.scalar
  induction points with
  | nil => rfl
  | cons left rest ih =>
      cases rest with
      | nil => rfl
      | cons right later =>
          simp only [List.map_cons, Interpolation.inSegments,
            change.convert_strictMono.le_iff_le, between_convert functions change] at ih ⊢
          rw [ih]

theorem value_convert (x : K) (points : List (K × K)) :
    letI := functions.scalar
    Interpolation.value (change.convert x)
      (points.map fun point => (change.convert point.1, point.2)) =
        Interpolation.value x points := by
  let := functions.scalar
  cases points with
  | nil => rfl
  | cons first rest =>
      have segments_eq (outside : K) :=
        inSegments_convert functions change outside x (first :: rest)
      rw [List.map_cons] at segments_eq
      have last_eq : (rest.map fun point => (change.convert point.1, point.2)).getLast?.getD
          (change.convert first.1, first.2) =
            (change.convert (rest.getLast?.getD first).1, (rest.getLast?.getD first).2) := by
        rw [List.getLast?_map]
        cases rest.getLast? <;> rfl
      simp only [List.map_cons, Interpolation.value, last_eq, segments_eq,
        change.convert_strictMono.le_iff_le]

end Shape

mutual

/-- A restated set has the degrees of the set in the other unit. -/
theorem degree_restate [IsStrictOrderedRing K] (functions : Elementary K) (change : UnitChange K)
    (set : FuzzySet K) (x : K) :
    letI := functions.scalar
    (set.restate change).degree (change.convert x) = set.degree x := by
  let := functions.scalar
  match set with
  | triangular left peak right =>
      exact congrArg toDegree (triangleAt_convert functions change left peak right x)
  | trapezoidal left coreLeft coreRight right =>
      exact congrArg toDegree
        (trapezoidAt_convert functions change left coreLeft coreRight right x)
  | gaussian center spread =>
      exact congrArg toDegree (gaussianAt_convert functions change center spread x)
  | constant value => rfl
  | composite link children =>
      exact congrArg (fun degrees => toDegree (link.fold degrees))
        (degrees_restateAll functions change children x)
  | pointwise points => exact congrArg toDegree (value_convert functions change x points)

theorem degrees_restateAll [IsStrictOrderedRing K] (functions : Elementary K)
    (change : UnitChange K) (sets : List (FuzzySet K)) (x : K) :
    letI := functions.scalar
    degrees (change.convert x) (restateAll change sets) = degrees x sets := by
  let := functions.scalar
  match sets with
  | [] => rfl
  | set :: rest =>
      rw [restateAll, degrees, degrees, degree_restate functions change set x,
        degrees_restateAll functions change rest x]

end

end FuzzySet

/-! ## Grids -/

section Grid

variable (functions : Elementary K) (change : UnitChange K)

/-- The grid of a converted interval has the converted abscissas. -/
theorem Grid.rest_convert (low high : K) (count : Nat) :
    letI := functions.scalar
    (Grid.spanning (change.convert low) (change.convert high) count).rest =
      (Grid.spanning low high count).rest.map change.convert := by
  let := functions.scalar
  rw [Grid.rest, Grid.rest, List.map_map]
  refine List.map_congr_left fun position _ => ?_
  rw [Function.comp_apply, Grid.abscissa_spanning, Grid.abscissa_spanning]
  split
  · rfl
  · split
    · simp only [zero_mul, add_zero]
    · rw [change.convert_sub, mul_div_assoc]
      unfold UnitChange.convert
      ring

end Grid

/-! ## Reductions -/

namespace Defuzzification

variable [IsStrictOrderedRing K] (functions : Elementary K) (change : UnitChange K)

omit [IsStrictOrderedRing K] in
theorem mass_convert (scale : K) (samples : List (K × K)) :
    letI := functions.scalar
    mass (samples.map (change.convertSample scale)) = scale * mass samples := by
  let := functions.scalar
  rw [mass_eq_sum functions, mass_eq_sum functions, List.map_map, ← List.sum_map_mul_left]
  rfl

omit [IsStrictOrderedRing K] in
/-- The moments of converted samples mix with their mass. -/
theorem moment_convert (scale : K) (samples : List (K × K)) :
    letI := functions.scalar
    total ((samples.map (change.convertSample scale)).map fun sample => sample.1 * sample.2) =
      scale * (change.stretch * total (samples.map fun sample => sample.1 * sample.2) +
        change.shift * mass samples) := by
  let := functions.scalar
  simp only [mass_eq_sum functions, functions.total_eq_sum, List.map_map]
  rw [← List.sum_map_mul_left, ← List.sum_map_mul_left, ← List.sum_map_add,
    ← List.sum_map_mul_left]
  refine congrArg List.sum (List.map_congr_left fun sample _ => ?_)
  simp only [Function.comp_apply, UnitChange.convertSample, UnitChange.convert]
  ring

omit [IsStrictOrderedRing K] in
theorem total_convert (values : List K) :
    letI := functions.scalar
    total (values.map change.convert) =
      change.stretch * total values + change.shift * (values.length : K) := by
  let := functions.scalar
  rw [functions.total_eq_sum, functions.total_eq_sum]
  induction values with
  | nil => simp
  | cons first rest ih =>
      rw [List.map_cons, List.sum_cons, ih, List.sum_cons, List.length_cons, Nat.cast_succ]
      unfold UnitChange.convert
      ring

section Scale

variable {scale : K} (scale_pos : 0 < scale)
include scale_pos

theorem peak_convert (samples : List (K × K)) :
    letI := functions.scalar
    peak (samples.map (change.convertSample scale)) = scale * peak samples := by
  let := functions.scalar
  refine eq_of_forall_ge_iff fun bound => ?_
  rw [← le_div_iff₀' scale_pos, peak_le_iff functions, peak_le_iff functions, List.forall_mem_map,
    le_div_iff₀' scale_pos, mul_zero]
  simp only [le_div_iff₀' scale_pos]
  rfl

theorem maxima_convert (samples : List (K × K)) :
    letI := functions.scalar
    maxima (samples.map (change.convertSample scale)) =
      (maxima samples).map change.convert := by
  let := functions.scalar
  have same_filter (sample : K × K) :
      ((change.convertSample scale sample).2 == scale * peak samples) =
        (sample.2 == peak samples) := by
    rw [Bool.eq_iff_iff, beq_iff_eq, beq_iff_eq]
    exact mul_right_inj' scale_pos.ne'
  rw [maxima, peak_convert functions change scale_pos, List.filter_map, List.map_map, maxima,
    List.map_map]
  simp only [Function.comp_def, same_filter]
  rfl

theorem crossing?_convert (level sofar : K) (samples : List (K × K)) :
    letI := functions.scalar
    crossing? (scale * level) (scale * sofar) (samples.map (change.convertSample scale)) =
      (crossing? level sofar samples).map change.convert := by
  let := functions.scalar
  induction samples generalizing sofar with
  | nil => rfl
  | cons sample rest ih =>
      have sum_eq : scale * sofar + (change.convertSample scale sample).2 =
          scale * (sofar + sample.2) :=
        (mul_add scale sofar sample.2).symm
      rw [List.map_cons, crossing?, crossing?, sum_eq, ih]
      simp only [mul_le_mul_iff_right₀ scale_pos]
      split <;> rfl

end Scale

omit [IsStrictOrderedRing K] in
theorem choose?_convert {prefer : K → K → K}
    (commutes : ∀ x y, prefer (change.convert x) (change.convert y) = change.convert (prefer x y))
    (values : List K) :
    letI := functions.scalar
    choose? prefer (values.map change.convert) = (choose? prefer values).map change.convert := by
  let := functions.scalar
  cases values with
  | nil => rfl
  | cons first rest =>
      rw [List.map_cons, choose?_cons functions, choose?_cons functions, List.foldl_map]
      exact congrArg some
        (List.foldl_hom change.convert fun x y => commutes x y)

theorem larger_convert (x y : K) :
    letI := functions.scalar
    larger (change.convert x) (change.convert y) = change.convert (larger x y) := by
  rw [functions.larger_eq_max, functions.larger_eq_max, change.convert_strictMono.monotone.map_max]

theorem smaller_convert (x y : K) :
    letI := functions.scalar
    smaller (change.convert x) (change.convert y) = change.convert (smaller x y) := by
  rw [functions.smaller_eq_min, functions.smaller_eq_min,
    change.convert_strictMono.monotone.map_min]

/-- Converted samples reduce to the converted value, if there is one. -/
theorem reduce?_convert {scale : K} (scale_pos : 0 < scale) (method : Defuzzification)
    {samples : List (K × K)} :
    letI := functions.scalar
    mass samples ≠ 0 →
      method.reduce? (samples.map (change.convertSample scale)) =
        (method.reduce? samples).map change.convert := by
  let := functions.scalar
  intro some_mass
  have converted_mass : scale * mass samples ≠ 0 := mul_ne_zero scale_pos.ne' some_mass
  unfold reduce?
  rw [mass_convert functions, beq_false_of_ne some_mass, beq_false_of_ne converted_mass,
    if_neg Bool.false_ne_true, if_neg Bool.false_ne_true]
  cases method with
  | centroid =>
      simp only [moment_convert functions, quotient?_eq_some functions converted_mass,
        quotient?_eq_some functions some_mass, Option.map_some]
      rw [mul_div_mul_left _ _ scale_pos.ne', add_div, mul_div_assoc,
        mul_div_cancel_right₀ _ some_mass]
      rfl
  | bisector =>
      have two_ne_zero : (1 + 1 : K) ≠ 0 := by
        rw [one_add_one_eq_two]
        exact two_ne_zero
      have crossing_eq := crossing?_convert functions change scale_pos (mass samples / (1 + 1)) 0
        samples
      rw [mul_zero, ← mul_div_assoc] at crossing_eq
      simp only [quotient?_eq_some functions two_ne_zero, Option.bind_some]
      exact crossing_eq
  | meanOfMaxima =>
      simp only [maxima_convert functions change scale_pos, total_ones functions,
        total_convert functions, List.length_map]
      cases count_eq : (maxima samples).length with
      | zero => simp [quotient?]
      | succ count =>
          have counted : ((count + 1 : Nat) : K) ≠ 0 := Nat.cast_ne_zero.2 (Nat.succ_ne_zero count)
          rw [quotient?_eq_some functions counted, quotient?_eq_some functions counted,
            Option.map_some, add_div, mul_div_assoc, mul_div_cancel_right₀ _ counted]
          rfl
  | largestOfMaxima =>
      simp only [maxima_convert functions change scale_pos]
      exact choose?_convert functions change (larger_convert functions change) _
  | smallestOfMaxima =>
      simp only [maxima_convert functions change scale_pos]
      exact choose?_convert functions change (smaller_convert functions change) _

theorem reduce_convert {scale : K} (scale_pos : 0 < scale) (method : Defuzzification)
    {samples : List (K × K)} (nonneg : ∀ sample ∈ samples, 0 ≤ sample.2) :
    letI := functions.scalar
    mass samples ≠ 0 →
      method.reduce (samples.map (change.convertSample scale)) =
        change.convert (method.reduce samples) := by
  let := functions.scalar
  intro some_mass
  have converted_nonneg : ∀ sample ∈ samples.map (change.convertSample scale), 0 ≤ sample.2 :=
    List.forall_mem_map.2 fun sample member => mul_nonneg scale_pos.le (nonneg sample member)
  have converted_mass : mass (samples.map (change.convertSample scale)) ≠ 0 := by
    rw [mass_convert functions]
    exact mul_ne_zero scale_pos.ne' some_mass
  have converted := reduce?_convert functions change scale_pos method some_mass
  rw [reduce?_eq_some functions converted_nonneg method converted_mass,
    reduce?_eq_some functions nonneg method some_mass] at converted
  exact Option.some.inj converted

/-- The scale of the degrees alone changes under the identical unit. -/
theorem reduce_scale {scale : K} (scale_pos : 0 < scale) (method : Defuzzification)
    {samples : List (K × K)} (nonneg : ∀ sample ∈ samples, 0 ≤ sample.2) :
    letI := functions.scalar
    mass samples ≠ 0 →
      method.reduce (samples.map fun sample => (sample.1, scale * sample.2)) =
        method.reduce samples := by
  let := functions.scalar
  intro some_mass
  have scaled := reduce_convert functions ⟨1, 0, one_pos⟩ scale_pos method nonneg some_mass
  have same_convert (x : K) : UnitChange.convert ⟨1, 0, one_pos⟩ x = x := by
    rw [UnitChange.convert, one_mul, add_zero]
  have same_sample : UnitChange.convertSample ⟨1, 0, one_pos⟩ scale =
      fun sample => (sample.1, scale * sample.2) := by
    funext sample
    rw [UnitChange.convertSample, same_convert]
  rwa [same_convert, same_sample] at scaled

/-! ## Crisp values -/

omit [IsStrictOrderedRing K] in
theorem samples_convert {set converted : FuzzySet K} (low high : K) :
    letI := functions.scalar
    (∀ x, converted.degree (change.convert x) = set.degree x) →
      samples converted (change.convert low) (change.convert high) =
        (samples set low high).map (change.convertSample 1) := by
  let := functions.scalar
  intro same_degrees
  unfold samples
  rw [Grid.rest_convert functions, List.map_map, List.map_map]
  refine List.map_congr_left fun x _ => ?_
  rw [Function.comp_apply, Function.comp_apply, same_degrees, UnitChange.convertSample, one_mul]

theorem mass_samples_ne_zero {set : FuzzySet K} {low high : K} :
    letI := functions.scalar
    (∃ x ∈ (Grid.spanning low high sampleCount).rest, set.degree x ≠ 0) →
      mass (samples set low high) ≠ 0 := by
  let := functions.scalar
  rintro ⟨x, on_grid, belongs⟩ massless
  rw [mass_eq_sum functions] at massless
  have flat := (sum_weights_eq_zero_iff
    (degree_nonneg_of_mem_samples functions set low high)).1 massless
  exact belongs (flat _ (List.mem_map_of_mem on_grid))

theorem crisp_convert (method : Defuzzification) {set converted : FuzzySet K} {low high : K} :
    letI := functions.scalar
    (∀ x, converted.degree (change.convert x) = set.degree x) →
      (∃ x ∈ (Grid.spanning low high sampleCount).rest, set.degree x ≠ 0) →
      method.crisp converted (change.convert low) (change.convert high) =
        change.convert (method.crisp set low high) := by
  let := functions.scalar
  intro same_degrees some_degree
  rw [crisp, samples_convert functions change low high same_degrees]
  exact reduce_convert functions change one_pos method
    (degree_nonneg_of_mem_samples functions set low high)
    (mass_samples_ne_zero functions some_degree)

end Defuzzification

open Defuzzification

/--
In exact arithmetic every reduction of samples with membership ignores the scale of the degrees
and follows a change of the unit of the abscissas.  So where a set has membership at some sample,
its crisp value follows the unit too: that of the restated set, and of all others that have the
same degrees, over the converted interval is the converted value.
-/
theorem reductions_follow_units {K : Type} [Field K] [LinearOrder K] [IsStrictOrderedRing K]
    (functions : Elementary K) :
    letI := functions.scalar
    ∀ (method : Defuzzification) (change : UnitChange K),
      (∀ samples : List (K × K), (∀ sample ∈ samples, 0 ≤ sample.2) → mass samples ≠ 0 →
        (∀ scale : K, 0 < scale →
          method.reduce (samples.map fun sample => (sample.1, scale * sample.2)) =
            method.reduce samples) ∧
        method.reduce (samples.map fun sample =>
            (change.stretch * sample.1 + change.shift, sample.2)) =
          change.stretch * method.reduce samples + change.shift) ∧
      ∀ (set : FuzzySet K) (low high : K), low < high →
        (∃ x ∈ (Grid.spanning low high sampleCount).rest, set.degree x ≠ 0) →
        (∀ x, (set.restate change).degree (change.stretch * x + change.shift) = set.degree x) ∧
        ∀ converted : FuzzySet K,
          (∀ x, converted.degree (change.stretch * x + change.shift) = set.degree x) →
          method.crisp converted (change.stretch * low + change.shift)
              (change.stretch * high + change.shift) =
            change.stretch * method.crisp set low high + change.shift := by
  let := functions.scalar
  intro method change
  refine ⟨fun samples nonneg some_mass => ⟨fun scale scale_pos => ?_, ?_⟩,
    fun set low high _ some_degree => ⟨set.degree_restate functions change, ?_⟩⟩
  · exact reduce_scale functions scale_pos method nonneg some_mass
  · have converted := reduce_convert functions change one_pos method nonneg some_mass
    rwa [funext change.convertSample_one] at converted
  · exact fun converted same_degrees =>
      crisp_convert functions change method same_degrees some_degree

def fahrenheit : UnitChange ℚ :=
  ⟨9 / 5, 32, by decide +kernel⟩

theorem fahrenheit_reduces :
    mass twinPeaks ≠ 0 ∧
    (∀ method : Defuzzification,
      method.reduce (twinPeaks.map fun sample => (sample.1, 2 * sample.2)) =
        method.reduce twinPeaks) ∧
    largestOfMaxima.reduce (twinPeaks.map fun sample => (9 / 5 * sample.1 + 32, sample.2)) =
      196 / 5 ∧
    centroid.crisp (FuzzySet.triangular (32 : ℚ) 41 50) 32 50 = 41 := by
  have some_mass : mass twinPeaks ≠ 0 := by decide +kernel
  have follows (method : Defuzzification) :=
    reductions_follow_units Elementary.rational method fahrenheit
  refine ⟨some_mass, fun method => ?_, ?_, ?_⟩
  · exact ((follows method).1 twinPeaks twinPeaks_nonneg some_mass).1 2 (by decide +kernel)
  · have warm := ((follows largestOfMaxima).1 twinPeaks twinPeaks_nonneg some_mass).2
    have cold_eq : largestOfMaxima.reduce twinPeaks = 4 := by decide +kernel
    have warm_eq : (9 / 5 * 4 + 32 : ℚ) = 196 / 5 := by decide +kernel
    rw [cold_eq] at warm
    exact warm.trans warm_eq
  · have warm := (follows centroid).2 (.triangular 0 5 10) 0 10 (by decide +kernel)
      ⟨5, by decide +kernel, by decide +kernel⟩
    have cold_eq : centroid.crisp (FuzzySet.triangular (0 : ℚ) 5 10) 0 10 = 5 := by decide +kernel
    have low_eq : fahrenheit.stretch * 0 + fahrenheit.shift = 32 := by decide +kernel
    have middle_eq : fahrenheit.stretch * 5 + fahrenheit.shift = 41 := by decide +kernel
    have high_eq : fahrenheit.stretch * 10 + fahrenheit.shift = 50 := by decide +kernel
    have restated := warm.2 _ warm.1
    rwa [FuzzySet.restate, UnitChange.convert, UnitChange.convert, UnitChange.convert, cold_eq,
      low_eq, middle_eq, high_eq] at restated

end FuzzyControl
