import Mathlib.Tactic.Ring
import FuzzyControl.Proofs.PiecewiseLinear
import FuzzyControl.Proofs.Reduction
import FuzzyControl.Scalar.Real

/-!
# Fuzzy numbers

A trapezoid is the lesser of a ramp that rises to its core and one that falls from it, whether or
not the sides are vertical.  A triangle is a trapezoid with a core of one point.  So no degree
lies below those on both sides of it, which is also true of a bell.
-/

namespace FuzzyControl

open Scalar

/-! ## What makes a fuzzy number -/

namespace FuzzySet

variable {K : Type} [LinearOrder K]

/-- Between two abscissas no height is below both of theirs. -/
def IsQuasiconcave (height : K → K) : Prop :=
  ∀ first middle last, first ≤ middle → middle ≤ last →
    min (height first) (height last) ≤ height middle

/-- The heights are one on the core only and sink to zero on both sides, by the corners at last. -/
structure IsFuzzyNumber [Zero K] [One K] (left coreLeft coreRight right : K) (height : K → K) :
    Prop where
  quasiconcave : IsQuasiconcave height
  core : ∀ x, height x = 1 ↔ coreLeft ≤ x ∧ x ≤ coreRight
  outside : ∀ x, x < left ∨ right < x → height x = 0
  corner : ∀ x, x = left ∨ x = right → ¬(coreLeft ≤ x ∧ x ≤ coreRight) → height x = 0

theorem isQuasiconcave_min {rising falling : K → K} (mono : Monotone rising)
    (anti : Antitone falling) : IsQuasiconcave fun x => min (rising x) (falling x) := by
  intro first middle last before behind
  refine le_min ?_ ?_
  · exact (min_le_left _ _).trans ((min_le_left _ _).trans (mono before))
  · exact (min_le_right _ _).trans ((min_le_right _ _).trans (anti behind))

end FuzzySet

structure Elementary.LawfulExp {K : Type} [Field K] [LinearOrder K] (functions : Elementary K) :
    Prop where
  exp_mono : Monotone functions.exp
  exp_zero : functions.exp 0 = 1
  exp_pos : ∀ x, 0 < functions.exp x

theorem Elementary.real_lawfulExp : Elementary.real.LawfulExp where
  exp_mono := Real.exp_monotone
  exp_zero := Real.exp_zero
  exp_pos := Real.exp_pos

namespace FuzzySet

/-! ## Heights that may fail -/

section Partial

open Defuzzification

variable {α : Type} [Scalar α]

/-- The height of a triangle, unless a quotient on the way is one by zero. -/
def triangleAt? (left peak right x : α) : Option α :=
  if x == peak then some 1
  else if left < x ∧ x < peak then quotient? (x - left) (peak - left)
  else if peak < x ∧ x < right then quotient? (right - x) (right - peak)
  else some 0

def trapezoidAt? (left coreLeft coreRight right x : α) : Option α :=
  if coreLeft ≤ x ∧ x ≤ coreRight then some 1
  else if left < x ∧ x < coreLeft then quotient? (x - left) (coreLeft - left)
  else if coreRight < x ∧ x < right then quotient? (right - x) (right - coreRight)
  else some 0

def gaussianAt? (center spread x : α) : Option α :=
  if x == center then some 1
  else (quotient? (-square (x - center)) ((2 : Nat) * square spread)).map Scalar.exp

end Partial

variable {K : Type} [Field K] [LinearOrder K]

/-! ## Ramps -/

/-- Rises from zero at the start to one at the stop, at once if they coincide. -/
def ramp (start stop x : K) : K :=
  if stop ≤ x then 1 else if start < x then (x - start) / (stop - start) else 0

section Ramp

variable {start stop x : K}

theorem ramp_of_le (reached : stop ≤ x) : ramp start stop x = 1 :=
  if_pos reached

theorem ramp_of_lt (above : start < x) (below : x < stop) :
    ramp start stop x = (x - start) / (stop - start) := by
  rw [ramp, if_neg (not_le.2 below), if_pos above]

theorem ramp_of_ge (before : x ≤ start) (below : x < stop) : ramp start stop x = 0 := by
  rw [ramp, if_neg (not_le.2 below), if_neg (not_lt.2 before)]

variable [IsStrictOrderedRing K]

/-- Below the stop a ramp is at least zero and less than one. -/
theorem ramp_mem_of_lt (below : x < stop) : 0 ≤ ramp start stop x ∧ ramp start stop x < 1 := by
  rcases le_or_gt x start with before | above
  · rw [ramp_of_ge before below]
    exact ⟨le_refl 0, zero_lt_one⟩
  · have width : 0 < stop - start := sub_pos.2 (above.trans below)
    rw [ramp_of_lt above below, div_lt_one width]
    exact ⟨div_nonneg (sub_nonneg.2 above.le) width.le, sub_lt_sub_right below start⟩

theorem ramp_nonneg : 0 ≤ ramp start stop x := by
  rcases le_or_gt stop x with reached | below
  · rw [ramp_of_le reached]
    exact zero_le_one
  · exact (ramp_mem_of_lt below).1

theorem ramp_le_one : ramp start stop x ≤ 1 := by
  rcases le_or_gt stop x with reached | below
  · exact (ramp_of_le reached).le
  · exact (ramp_mem_of_lt below).2.le

theorem ramp_eq_one_iff : ramp start stop x = 1 ↔ stop ≤ x := by
  refine ⟨fun one => ?_, ramp_of_le⟩
  by_contra below
  exact (ramp_mem_of_lt (not_le.1 below)).2.ne one

theorem ramp_mono : Monotone (ramp start stop) := by
  intro x y le
  rcases le_or_gt stop y with reached | below
  · rw [ramp_of_le reached]
    exact ramp_le_one
  · rcases le_or_gt x start with before | above
    · rw [ramp_of_ge before (le.trans_lt below)]
      exact ramp_nonneg
    · rw [ramp_of_lt above (le.trans_lt below), ramp_of_lt (above.trans_le le) below]
      have width : 0 ≤ stop - start := sub_nonneg.2 ((above.trans_le le).trans below).le
      exact div_le_div_of_nonneg_right (sub_le_sub_right le start) width

end Ramp

/-! ## Shapes with corners -/

section Corners

variable (functions : Elementary K) {left coreLeft coreRight right : K}

/-- A triangle is a trapezoid whose core is one point. -/
theorem triangleAt_eq_trapezoidAt (left peak right x : K) :
    letI := functions.scalar
    triangleAt left peak right x = trapezoidAt left peak peak right x ∧
      triangleAt? left peak right x = trapezoidAt? left peak peak right x := by
  let _ := functions.scalar
  have here : (x == peak) = true ↔ peak ≤ x ∧ x ≤ peak := by
    rw [beq_iff_eq, and_comm]
    exact le_antisymm_iff
  simp only [triangleAt, trapezoidAt, triangleAt?, trapezoidAt?, here, and_self]

variable [IsStrictOrderedRing K]

/-- A side has a width if an abscissa lies on it, so its height is never a quotient by zero. -/
theorem trapezoidAt?_eq_some (left coreLeft coreRight right x : K) :
    letI := functions.scalar
    trapezoidAt? left coreLeft coreRight right x =
      some (trapezoidAt left coreLeft coreRight right x) := by
  let _ := functions.scalar
  unfold trapezoidAt? trapezoidAt
  split
  · rfl
  · split
    · rename_i rising
      have width : coreLeft - left ≠ 0 := (sub_pos.2 (rising.1.trans rising.2)).ne'
      exact Defuzzification.quotient?_eq_some functions width
    · split
      · rename_i falling
        have width : right - coreRight ≠ 0 := (sub_pos.2 (falling.1.trans falling.2)).ne'
        exact Defuzzification.quotient?_eq_some functions width
      · rfl

/-- A trapezoid is the lesser of its two sides. -/
theorem trapezoidAt_eq_min (core : coreLeft ≤ coreRight) (x : K) :
    letI := functions.scalar
    trapezoidAt left coreLeft coreRight right x =
      min (ramp left coreLeft x) (ramp (-right) (-coreRight) (-x)) := by
  let _ := functions.scalar
  unfold trapezoidAt
  rcases le_or_gt coreLeft x with behind_left | before_core
  · rw [ramp_of_le behind_left, min_eq_right ramp_le_one]
    rcases le_or_gt x coreRight with before_right | behind_core
    · rw [if_pos ⟨behind_left, before_right⟩, ramp_of_le (neg_le_neg before_right)]
    · rw [if_neg fun inside => behind_core.not_ge inside.2,
        if_neg fun rising => rising.2.not_ge behind_left]
      rcases le_or_gt right x with outside | falling
      · rw [if_neg fun falling => falling.2.not_ge outside,
          ramp_of_ge (neg_le_neg outside) (neg_lt_neg behind_core)]
      · rw [if_pos ⟨behind_core, falling⟩,
          ramp_of_lt (neg_lt_neg falling) (neg_lt_neg behind_core), neg_sub_neg, neg_sub_neg]
  · have before_right : x ≤ coreRight := before_core.le.trans core
    rw [ramp_of_le (neg_le_neg before_right), min_eq_left ramp_le_one,
      if_neg fun inside => before_core.not_ge inside.1]
    rcases le_or_gt x left with outside | rising
    · rw [if_neg fun rising => rising.1.not_ge outside,
        if_neg fun falling => falling.1.not_ge before_right, ramp_of_ge outside before_core]
    · rw [if_pos ⟨rising, before_core⟩, ramp_of_lt rising before_core]

/-- The sides of a trapezoid leave nothing to be clamped. -/
theorem degree_trapezoidal (core : coreLeft ≤ coreRight) (x : K) :
    letI := functions.scalar
    (trapezoidal left coreLeft coreRight right).degree x =
      trapezoidAt left coreLeft coreRight right x := by
  let _ := functions.scalar
  refine functions.toDegree_eq ?_
  rw [trapezoidAt_eq_min functions core]
  exact ⟨le_min ramp_nonneg ramp_nonneg, (min_le_left _ _).trans ramp_le_one⟩

omit [IsStrictOrderedRing K] in
theorem degree_triangular (left peak right x : K) :
    letI := functions.scalar
    (triangular left peak right).degree x = (trapezoidal left peak peak right).degree x := by
  let _ := functions.scalar
  exact congrArg toDegree (triangleAt_eq_trapezoidAt functions left peak right x).1

theorem isFuzzyNumber_trapezoidal (rises : left ≤ coreLeft) (core : coreLeft ≤ coreRight)
    (falls : coreRight ≤ right) :
    letI := functions.scalar
    IsFuzzyNumber left coreLeft coreRight right
      fun x => (trapezoidal left coreLeft coreRight right).degree x := by
  let _ := functions.scalar
  have heights (x : K) : (trapezoidal left coreLeft coreRight right).degree x =
      min (ramp left coreLeft x) (ramp (-right) (-coreRight) (-x)) := by
    rw [degree_trapezoidal functions core, trapezoidAt_eq_min functions core]
  simp only [heights]
  have sunk_left {x : K} (before : x ≤ left) (below : x < coreLeft) :
      min (ramp left coreLeft x) (ramp (-right) (-coreRight) (-x)) = 0 := by
    rw [ramp_of_ge before below]
    exact min_eq_left ramp_nonneg
  have sunk_right {x : K} (behind : right ≤ x) (below : coreRight < x) :
      min (ramp left coreLeft x) (ramp (-right) (-coreRight) (-x)) = 0 := by
    rw [ramp_of_ge (neg_le_neg behind) (neg_lt_neg below)]
    exact min_eq_right ramp_nonneg
  refine ⟨?_, fun x => ?_, fun x out => ?_, fun x at_corner off_core => ?_⟩
  · exact isQuasiconcave_min ramp_mono fun _ _ le => ramp_mono (neg_le_neg le)
  · have one_iff : min (ramp left coreLeft x) (ramp (-right) (-coreRight) (-x)) = 1 ↔
        ramp left coreLeft x = 1 ∧ ramp (-right) (-coreRight) (-x) = 1 := by
      constructor
      · intro one
        exact ⟨le_antisymm ramp_le_one (one.ge.trans (min_le_left _ _)),
          le_antisymm ramp_le_one (one.ge.trans (min_le_right _ _))⟩
      · rintro ⟨left_one, right_one⟩
        rw [left_one, right_one, min_self]
    rw [one_iff, ramp_eq_one_iff, ramp_eq_one_iff, neg_le_neg_iff]
  · rcases out with before | behind
    · exact sunk_left before.le (before.trans_le rises)
    · exact sunk_right behind.le (falls.trans_lt behind)
  · rcases at_corner with rfl | rfl
    · exact sunk_left (le_refl _) (rises.lt_of_ne fun same =>
        off_core ⟨same.ge, same.trans_le core⟩)
    · exact sunk_right (le_refl _) (falls.lt_of_ne fun same =>
        off_core ⟨core.trans_eq same, same.ge⟩)

end Corners

/-! ## Bells -/

section Bell

variable [IsStrictOrderedRing K] {functions : Elementary K} {center spread : K}

theorem divisor_pos (positive : 0 < spread) : 0 < ((2 : Nat) : K) * (spread * spread) :=
  mul_pos (Nat.cast_pos.2 Nat.two_pos) (mul_pos positive positive)

theorem gaussianAt?_eq_some (functions : Elementary K) (positive : 0 < spread) (x : K) :
    letI := functions.scalar
    gaussianAt? center spread x = some (gaussianAt center spread x) := by
  let _ := functions.scalar
  unfold gaussianAt? gaussianAt
  split
  · rfl
  · have divisor_ne_zero : ((2 : Nat) : K) * square spread ≠ 0 := (divisor_pos positive).ne'
    rw [Defuzzification.quotient?_eq_some functions divisor_ne_zero, Option.map_some]

variable (lawful : functions.LawfulExp)
include lawful

omit [IsStrictOrderedRing K] in
/-- The height of the center is no exception from the formula. -/
theorem gaussianAt_eq_exp (center spread x : K) :
    letI := functions.scalar
    gaussianAt center spread x = functions.exp
      (-((x - center) * (x - center)) / (((2 : Nat) : K) * (spread * spread))) := by
  let _ := functions.scalar
  unfold gaussianAt
  split
  · rename_i here
    rw [eq_of_beq here, sub_self, mul_zero, neg_zero, zero_div, lawful.exp_zero]
  · rfl

theorem gaussianAt_le_of_nearer (positive : 0 < spread) {near far : K}
    (nearer : (near - center) * (near - center) ≤ (far - center) * (far - center)) :
    letI := functions.scalar
    gaussianAt center spread far ≤ gaussianAt center spread near := by
  let _ := functions.scalar
  rw [gaussianAt_eq_exp lawful, gaussianAt_eq_exp lawful]
  exact lawful.exp_mono
    (div_le_div_of_nonneg_right (neg_le_neg nearer) (divisor_pos positive).le)

/-- The exponents are not positive, so a bell leaves nothing to be clamped. -/
theorem degree_gaussian (positive : 0 < spread) (x : K) :
    letI := functions.scalar
    (gaussian center spread).degree x = gaussianAt center spread x := by
  let _ := functions.scalar
  refine functions.toDegree_eq ⟨?_, ?_⟩
  · rw [gaussianAt_eq_exp lawful]
    exact (lawful.exp_pos _).le
  · have nearest : (center - center) * (center - center) ≤ (x - center) * (x - center) := by
      rw [sub_self, mul_zero]
      exact mul_self_nonneg _
    exact (gaussianAt_le_of_nearer lawful positive nearest).trans_eq (if_pos (beq_self_eq_true _))

theorem isQuasiconcave_gaussian (positive : 0 < spread) :
    letI := functions.scalar
    IsQuasiconcave fun x => (gaussian center spread).degree x := by
  let _ := functions.scalar
  simp only [degree_gaussian lawful positive]
  intro first middle last before behind
  rcases le_total middle center with left_side | right_side
  · -- on the left side the first abscissa is farther from the center
    refine (min_le_left _ _).trans (gaussianAt_le_of_nearer lawful positive ?_)
    rw [← neg_mul_neg (middle - center), neg_sub, ← neg_mul_neg (first - center), neg_sub]
    exact mul_self_le_mul_self (sub_nonneg.2 left_side) (sub_le_sub_left before center)
  · refine (min_le_right _ _).trans (gaussianAt_le_of_nearer lawful positive ?_)
    exact mul_self_le_mul_self (sub_nonneg.2 right_side) (sub_le_sub_right behind center)

theorem gaussian_symmetric (positive : 0 < spread) (distance : K) :
    letI := functions.scalar
    (gaussian center spread).degree (center + distance) =
      (gaussian center spread).degree (center - distance) := by
  let _ := functions.scalar
  rw [degree_gaussian lawful positive, degree_gaussian lawful positive,
    gaussianAt_eq_exp lawful, gaussianAt_eq_exp lawful, add_sub_cancel_left, sub_sub_cancel_left,
    neg_mul_neg]

end Bell

/-! ## The points of a trapezoid -/

def cornerPoints (left coreLeft coreRight right : K) : List (K × K) :=
  [(left, 0), (coreLeft, 1), (coreRight, 1), (right, 0)]

section Points

variable [IsStrictOrderedRing K] (functions : Elementary K) {left coreLeft coreRight right : K}

theorem isDegree_cornerPoints :
    ∀ point ∈ cornerPoints left coreLeft coreRight right, 0 ≤ point.2 ∧ point.2 ≤ 1 := by
  simp only [cornerPoints, List.forall_mem_cons]
  exact ⟨⟨le_refl 0, zero_le_one⟩, ⟨zero_le_one, le_refl 1⟩, ⟨zero_le_one, le_refl 1⟩,
    ⟨le_refl 0, zero_le_one⟩, List.forall_mem_nil _⟩

omit [IsStrictOrderedRing K] in
theorem sortPoints_cornerPoints (rises : left ≤ coreLeft) (core : coreLeft ≤ coreRight)
    (falls : coreRight ≤ right) :
    letI := functions.scalar
    sortPoints (cornerPoints left coreLeft coreRight right) =
      cornerPoints left coreLeft coreRight right := by
  let _ := functions.scalar
  refine List.mergeSort_of_pairwise ?_
  simp only [cornerPoints, precedes, List.pairwise_cons, List.forall_mem_cons, decide_eq_true_eq]
  exact ⟨⟨rises, rises.trans core, (rises.trans core).trans falls, List.forall_mem_nil _⟩,
    ⟨core, core.trans falls, List.forall_mem_nil _⟩, ⟨falls, List.forall_mem_nil _⟩,
    List.forall_mem_nil _, .nil⟩

theorem ofPoints_cornerPoints (rises : left ≤ coreLeft) (core : coreLeft ≤ coreRight)
    (falls : coreRight ≤ right) :
    letI := functions.scalar
    ofPoints (cornerPoints left coreLeft coreRight right) =
      .ok (.pointwise (cornerPoints left coreLeft coreRight right)) := by
  let _ := functions.scalar
  refine (ofPoints_eq_ok_iff functions).2 ⟨isDegree_cornerPoints, ?_⟩
  rw [sortPoints_cornerPoints functions rises core falls]

omit [IsStrictOrderedRing K] in
theorem between_rising (rises : left < coreLeft) (x : K) :
    letI := functions.scalar
    Interpolation.between (left, 0) (coreLeft, 1) x = (x - left) / (coreLeft - left) := by
  let _ := functions.scalar
  rw [Interpolation.between, beq_false_of_ne rises.ne', if_neg Bool.false_ne_true, sub_zero,
    mul_one, zero_add]

omit [IsStrictOrderedRing K] in
theorem between_level (x : K) :
    letI := functions.scalar
    Interpolation.between (coreLeft, 1) (coreRight, 1) x = 1 := by
  let _ := functions.scalar
  unfold Interpolation.between
  split
  · rfl
  · rw [sub_self, mul_zero, zero_div, add_zero]

omit [IsStrictOrderedRing K] in
theorem between_falling (falls : coreRight < right) (x : K) :
    letI := functions.scalar
    Interpolation.between (coreRight, 1) (right, 0) x = (right - x) / (right - coreRight) := by
  let _ := functions.scalar
  have width : right - coreRight ≠ 0 := sub_ne_zero.2 falls.ne'
  rw [Interpolation.between, beq_false_of_ne falls.ne', if_neg Bool.false_ne_true, zero_sub,
    mul_neg_one, one_add_div width]
  ring

/-- Interpolation takes the corners of the core from other segments, but with the same height. -/
theorem value_cornerPoints (rises : left < coreLeft) (core : coreLeft ≤ coreRight)
    (falls : coreRight < right) (x : K) :
    letI := functions.scalar
    Interpolation.value x (cornerPoints left coreLeft coreRight right) =
      trapezoidAt left coreLeft coreRight right x := by
  let _ := functions.scalar
  simp only [cornerPoints, Interpolation.value, List.getLast?_cons_cons, List.getLast?_singleton,
    Option.getD_some, Interpolation.inSegments, trapezoidAt]
  rcases le_or_gt x left with before | behind_left
  · rw [if_pos before, if_neg fun inside => (before.trans_lt rises).not_ge inside.1,
      if_neg fun rising => rising.1.not_ge before,
      if_neg fun falling => falling.1.not_ge ((before.trans rises.le).trans core)]
  · rw [if_neg behind_left.not_ge]
    rcases le_or_gt right x with behind | before_right
    · rw [if_pos behind, if_neg fun inside => (falls.trans_le behind).not_ge inside.2,
        if_neg fun rising => rising.2.not_ge (core.trans (falls.le.trans behind)),
        if_neg fun falling => falling.2.not_ge behind]
    · rw [if_neg before_right.not_ge]
      rcases lt_trichotomy x coreLeft with rising | rfl | behind_rise
      · rw [if_pos ⟨behind_left.le, rising.le⟩, between_rising functions rises,
          if_neg fun inside => rising.not_ge inside.1, if_pos ⟨behind_left, rising⟩]
      · rw [if_pos ⟨behind_left.le, le_refl x⟩, between_rising functions rises,
          if_pos ⟨le_refl x, core⟩, div_self (sub_pos.2 rises).ne']
      · rw [if_neg fun rising => behind_rise.not_ge rising.2]
        rcases le_or_gt x coreRight with level | falling
        · rw [if_pos ⟨behind_rise.le, level⟩, if_pos ⟨behind_rise.le, level⟩,
            between_level functions]
        · rw [if_neg fun level => falling.not_ge level.2,
            if_pos ⟨falling.le, before_right.le⟩, between_falling functions falls,
            if_neg fun level => falling.not_ge level.2,
            if_neg fun rising => behind_rise.not_gt rising.2, if_pos ⟨falling, before_right⟩]

theorem degree_cornerPoints (rises : left < coreLeft) (core : coreLeft ≤ coreRight)
    (falls : coreRight < right) (x : K) :
    letI := functions.scalar
    (pointwise (cornerPoints left coreLeft coreRight right)).degree x =
      (trapezoidal left coreLeft coreRight right).degree x := by
  let _ := functions.scalar
  rw [degree_pointwise functions isDegree_cornerPoints, degree_trapezoidal functions core,
    value_cornerPoints functions rises core falls]

end Points

end FuzzySet

open FuzzySet

/--
In exact arithmetic the checked triangles, trapezoids and bells are fuzzy numbers, also with
vertical sides: no height needs a quotient by zero or has to be clamped, and none is below those
on both sides of it.  The core is that of the corners, and there is nothing outside of them.  If
no side is vertical, the set through the corners has the same degrees.
-/
theorem checked_shapes_are_fuzzy_numbers {K : Type} [Field K] [LinearOrder K]
    [IsStrictOrderedRing K] (functions : Elementary K) (lawful : functions.LawfulExp) :
    letI := functions.scalar
    (∀ (left peak right : K) (set : FuzzySet K), ofTriangle left peak right = .ok set →
      IsFuzzyNumber left peak peak right (fun x => set.degree x) ∧
        ∀ x, triangleAt? left peak right x = some (set.degree x)) ∧
    (∀ (left coreLeft coreRight right : K) (set : FuzzySet K),
      ofTrapezoid left coreLeft coreRight right = .ok set →
        IsFuzzyNumber left coreLeft coreRight right (fun x => set.degree x) ∧
          ∀ x, trapezoidAt? left coreLeft coreRight right x = some (set.degree x)) ∧
    (∀ (center spread : K) (set : FuzzySet K), ofGaussian center spread = .ok set →
      IsQuasiconcave (fun x => set.degree x) ∧ set.degree center = 1 ∧
        (∀ distance, set.degree (center + distance) = set.degree (center - distance)) ∧
        ∀ x, gaussianAt? center spread x = some (set.degree x)) ∧
    (∀ left coreLeft coreRight right : K,
      left < coreLeft → coreLeft ≤ coreRight → coreRight < right →
        ∃ trapezoid points : FuzzySet K,
          ofTrapezoid left coreLeft coreRight right = .ok trapezoid ∧
          ofPoints [(left, 0), (coreLeft, 1), (coreRight, 1), (right, 0)] = .ok points ∧
          (∀ x, points.degree x = trapezoid.degree x) ∧
          (coreLeft = coreRight → ∃ triangle : FuzzySet K,
            ofTriangle left coreLeft right = .ok triangle ∧
              ∀ x, points.degree x = triangle.degree x)) := by
  let _ := functions.scalar
  refine ⟨fun left peak right set accepted => ?_,
    fun left coreLeft coreRight right set accepted => ?_,
    fun center spread set accepted => ?_,
    fun left coreLeft coreRight right rises core falls => ?_⟩
  · obtain ⟨⟨rises, falls⟩, rfl⟩ := Outcome.ite_eq_ok_iff.1 accepted
    simp only [degree_triangular functions]
    refine ⟨isFuzzyNumber_trapezoidal functions rises (le_refl peak) falls, fun x => ?_⟩
    rw [(triangleAt_eq_trapezoidAt functions left peak right x).2, trapezoidAt?_eq_some functions,
      degree_trapezoidal functions (le_refl peak)]
  · obtain ⟨⟨rises, core, falls⟩, rfl⟩ := Outcome.ite_eq_ok_iff.1 accepted
    refine ⟨isFuzzyNumber_trapezoidal functions rises core falls, fun x => ?_⟩
    rw [trapezoidAt?_eq_some functions, degree_trapezoidal functions core]
  · obtain ⟨positive, rfl⟩ := Outcome.ite_eq_ok_iff.1 accepted
    refine ⟨isQuasiconcave_gaussian lawful positive, ?_, gaussian_symmetric lawful positive,
      fun x => ?_⟩
    · rw [degree_gaussian lawful positive, gaussianAt, beq_self_eq_true, if_pos rfl]
    · rw [gaussianAt?_eq_some functions positive, degree_gaussian lawful positive]
  · refine ⟨_, _, Outcome.ite_eq_ok_iff.2 ⟨⟨rises.le, core, falls.le⟩, rfl⟩,
      ofPoints_cornerPoints functions rises.le core falls.le,
      degree_cornerPoints functions rises core falls, ?_⟩
    rintro rfl
    refine ⟨_, Outcome.ite_eq_ok_iff.2 ⟨⟨rises.le, falls.le⟩, rfl⟩, fun x => ?_⟩
    rw [degree_triangular functions, degree_cornerPoints functions rises core falls]

/-- A side may be vertical, and the corner below it belongs to the core. -/
theorem vertical_sides_are_fuzzy_numbers :
    letI := Elementary.real.scalar
    (∃ triangle : FuzzySet ℝ, ofTriangle 0 0 (1 / 2) = .ok triangle ∧ triangle.degree (-1) = 0 ∧
      triangle.degree 0 = 1 ∧ triangle.degree (1 / 2) = 0) ∧
    (∃ trapezoid : FuzzySet ℝ, ofTrapezoid 1 1 2 4 = .ok trapezoid ∧ trapezoid.degree 1 = 1 ∧
      min (trapezoid.degree 0) (trapezoid.degree 3) ≤ trapezoid.degree 1) ∧
    (∃ bell : FuzzySet ℝ, ofGaussian 3 2 = .ok bell ∧ bell.degree 3 = 1 ∧
      bell.degree (3 + 1) = bell.degree (3 - 1)) ∧
    ∃ trapezoid points : FuzzySet ℝ, ofTrapezoid 0 1 2 4 = .ok trapezoid ∧
      ofPoints [(0, 0), (1, 1), (2, 1), (4, 0)] = .ok points ∧
      ∀ x, points.degree x = trapezoid.degree x := by
  let _ := Elementary.real.scalar
  obtain ⟨triangles, trapezoids, bells, pointwise_eq⟩ :=
    checked_shapes_are_fuzzy_numbers Elementary.real Elementary.real_lawfulExp
  have triangle : ofTriangle (0 : ℝ) 0 (1 / 2) = .ok (.triangular 0 0 (1 / 2)) :=
    Outcome.ite_eq_ok_iff.2 ⟨by norm_num, rfl⟩
  have trapezoid : ofTrapezoid (1 : ℝ) 1 2 4 = .ok (.trapezoidal 1 1 2 4) :=
    Outcome.ite_eq_ok_iff.2 ⟨by norm_num, rfl⟩
  have bell : ofGaussian (3 : ℝ) 2 = .ok (.gaussian 3 2) :=
    Outcome.ite_eq_ok_iff.2 ⟨by norm_num, rfl⟩
  obtain ⟨triangle_number, _⟩ := triangles _ _ _ _ triangle
  obtain ⟨trapezoid_number, _⟩ := trapezoids _ _ _ _ _ trapezoid
  obtain ⟨_, one_at_center, symmetric, _⟩ := bells _ _ _ bell
  obtain ⟨slanted, points, slanted_ok, points_ok, same, _⟩ :=
    pointwise_eq 0 1 2 4 (by norm_num) (by norm_num) (by norm_num)
  refine ⟨⟨_, triangle, ?_, ?_, ?_⟩, ⟨_, trapezoid, ?_, ?_⟩,
    ⟨_, bell, one_at_center, symmetric 1⟩, slanted, points, slanted_ok, points_ok, same⟩
  · exact triangle_number.outside (-1) (.inl (by norm_num))
  · exact (triangle_number.core 0).2 ⟨le_refl 0, le_refl 0⟩
  · exact triangle_number.corner (1 / 2) (.inr rfl) (by norm_num)
  · exact (trapezoid_number.core 1).2 ⟨le_refl 1, by norm_num⟩
  · exact trapezoid_number.quasiconcave 0 1 3 (by norm_num) (by norm_num)

end FuzzyControl
