import Mathlib.Algebra.Order.Field.Basic
import Mathlib.Algebra.Order.BigOperators.Group.List
import Mathlib.Data.List.Induction
import Mathlib.Order.Bounds.Basic
import Mathlib.Tactic.Linarith
import Mathlib.Tactic.Ring
import FuzzyControl.Proofs.Leniency

/-!
# Closed forms of folds

What a link makes of several degrees can be said without folding them: their least or
greatest one, a product, or a sum that is cut off.  Such a value does not depend on the order
of the degrees, and the values of two lists are linked to the value of both together.
-/

namespace FuzzyControl

open Scalar

variable {K : Type} [Field K] [LinearOrder K]

/-! ## Drastic links -/

/--
The one value that differs from the unit: the unit itself if there is none, and `otherwise` if
there are several.
-/
def sole (unit otherwise : K) (values : List K) : K :=
  match values.filter (· ≠ unit) with
  | [] => unit
  | [value] => value
  | _ :: _ :: _ => otherwise

omit [Field K] in
theorem sole_append {unit otherwise : K} (distinct : otherwise ≠ unit) (first second : List K) :
    sole unit otherwise (first ++ second) =
      if sole unit otherwise second = unit then sole unit otherwise first
      else if sole unit otherwise first = unit then sole unit otherwise second
      else otherwise := by
  have differs (values : List K) : ∀ value ∈ values.filter (· ≠ unit), value ≠ unit :=
    fun value member => of_decide_eq_true (List.mem_filter.1 member).2
  have first_differs := differs first
  have second_differs := differs second
  unfold sole
  rw [List.filter_append]
  -- only what differs from the unit is counted on each side
  generalize first.filter (· ≠ unit) = left at first_differs ⊢
  generalize second.filter (· ≠ unit) = right at second_differs ⊢
  cases right with
  | nil => simp
  | cons value rest =>
      have value_differs := second_differs value List.mem_cons_self
      cases left with
      | nil => cases rest <;> simp [value_differs, distinct]
      | cons other later =>
          have other_differs := first_differs other List.mem_cons_self
          cases later <;> cases rest <;> simp [value_differs, other_differs, distinct]

omit [Field K] in
theorem sole_perm {unit otherwise : K} {first second : List K} (permuted : first.Perm second) :
    sole unit otherwise first = sole unit otherwise second := by
  have filtered := permuted.filter (· ≠ unit)
  unfold sole
  generalize first.filter (· ≠ unit) = left at filtered ⊢
  generalize second.filter (· ≠ unit) = right at filtered ⊢
  cases left with
  | nil => rw [filtered.nil_eq]
  | cons value rest =>
      cases rest with
      | nil => rw [List.singleton_perm.1 filtered]
      | cons more later =>
          have length_eq := filtered.length_eq
          rcases right with _ | ⟨_, _ | ⟨_, _⟩⟩
          · cases length_eq
          · cases length_eq
          · rfl

/-! ## Closed forms -/

/-- The value that a link makes of some degrees, without reference to a fold. -/
def Link.ClosedForm (link : Link) (degrees : List K) (value : K) : Prop :=
  match link with
  | .minimum => IsLeast {degree | degree ∈ degrees} value
  | .product => value = degrees.prod
  | .boundedProduct => value = max 0 (degrees.sum - ((degrees.length : K) - 1))
  | .drasticProduct => value = sole 1 0 degrees
  | .maximum => IsGreatest {degree | degree ∈ degrees} value
  | .probabilisticSum => value = 1 - (degrees.map (1 - ·)).prod
  | .boundedSum => value = min 1 degrees.sum
  | .drasticSum => value = sole 0 1 degrees

namespace Link.ClosedForm

variable {link : Link} {first second : List K} {value other : K}

theorem unique (closed : link.ClosedForm first value) (again : link.ClosedForm first other) :
    value = other := by
  cases link with
  | minimum => exact IsLeast.unique closed again
  | maximum => exact IsGreatest.unique closed again
  | _ => exact Eq.trans closed (Eq.symm again)

theorem perm (permuted : first.Perm second) (closed : link.ClosedForm first value) :
    link.ClosedForm second value := by
  cases link with
  | minimum => simpa only [ClosedForm, permuted.mem_iff] using closed
  | product => exact Eq.trans closed permuted.prod_eq
  | boundedProduct => simpa only [ClosedForm, permuted.sum_eq, permuted.length_eq] using closed
  | drasticProduct => exact Eq.trans closed (sole_perm permuted)
  | maximum => simpa only [ClosedForm, permuted.mem_iff] using closed
  | probabilisticSum => simpa only [ClosedForm, (permuted.map (1 - ·)).prod_eq] using closed
  | boundedSum => simpa only [ClosedForm, permuted.sum_eq] using closed
  | drasticSum => exact Eq.trans closed (sole_perm permuted)

variable [IsStrictOrderedRing K]

omit [IsStrictOrderedRing K] in
theorem singleton {degree : K} (inside : 0 ≤ degree ∧ degree ≤ 1) :
    link.ClosedForm [degree] degree := by
  have sole_eq (unit otherwise : K) : degree = sole unit otherwise [degree] := by
    by_cases same : degree = unit <;> simp [sole, same]
  cases link with
  | minimum => simp [ClosedForm]
  | product => simp [ClosedForm]
  | boundedProduct => simp [ClosedForm, inside.1]
  | drasticProduct => exact sole_eq 1 0
  | maximum => simp [ClosedForm]
  | probabilisticSum => simp [ClosedForm]
  | boundedSum => simp [ClosedForm, inside.2]
  | drasticSum => exact sole_eq 0 1

theorem max_zero_add {left right : K} (left_le : left ≤ 1) (right_le : right ≤ 1) :
    max 0 (max 0 left + max 0 right - 1) = max 0 (left + right - 1) := by
  rcases le_total 0 left with left_nonneg | left_nonpos
  · rcases le_total 0 right with right_nonneg | right_nonpos
    · rw [max_eq_right left_nonneg, max_eq_right right_nonneg]
    · rw [max_eq_left right_nonpos, max_eq_right left_nonneg, max_eq_left (by linarith),
        max_eq_left (by linarith)]
  · rw [max_eq_left left_nonpos, zero_add, max_eq_left (by linarith : left + right - 1 ≤ 0)]
    exact max_eq_left (sub_nonpos.2 (max_le zero_le_one right_le))

theorem min_one_add {left right : K} (left_nonneg : 0 ≤ left) (right_nonneg : 0 ≤ right) :
    min 1 (min 1 left + min 1 right) = min 1 (left + right) := by
  rcases le_total left 1 with left_le | one_le
  · rcases le_total right 1 with right_le | one_le
    · rw [min_eq_right left_le, min_eq_right right_le]
    · rw [min_eq_left one_le, min_eq_right left_le, min_eq_left (by linarith),
        min_eq_left (by linarith)]
  · rw [min_eq_left one_le, min_eq_left (by linarith : 1 ≤ left + right)]
    exact min_eq_left (le_add_of_nonneg_right (le_min zero_le_one right_nonneg))

/-- The values of two lists are linked to the value of both together. -/
theorem append (functions : Elementary K) (first_inside : ∀ degree ∈ first, 0 ≤ degree ∧ degree ≤ 1)
    (second_inside : ∀ degree ∈ second, 0 ≤ degree ∧ degree ≤ 1)
    (closed : link.ClosedForm first value) (later : link.ClosedForm second other) :
    letI := functions.scalar
    link.ClosedForm (first ++ second) (link.apply value other) := by
  let := functions.scalar
  have sum_le {degrees : List K} (inside : ∀ degree ∈ degrees, 0 ≤ degree ∧ degree ≤ 1) :
      degrees.sum - ((degrees.length : K) - 1) ≤ 1 := by
    have bounded := List.sum_le_card_nsmul degrees 1 fun degree member => (inside degree member).2
    rw [nsmul_one] at bounded
    linarith
  have sum_nonneg {degrees : List K} (inside : ∀ degree ∈ degrees, 0 ≤ degree ∧ degree ≤ 1) :
      0 ≤ degrees.sum :=
    List.sum_nonneg fun degree member => (inside degree member).1
  cases link with
  | minimum =>
      simp only [ClosedForm, apply, functions.smaller_eq_min, List.mem_append]
      exact IsLeast.union closed later
  | product =>
      simp only [ClosedForm, apply] at closed later ⊢
      rw [List.prod_append, closed, later]
  | boundedProduct =>
      simp only [ClosedForm, apply, functions.larger_eq_max] at closed later ⊢
      rw [closed, later, max_zero_add (sum_le first_inside) (sum_le second_inside),
        List.sum_append, List.length_append, Nat.cast_add]
      congr 1
      ring
  | drasticProduct =>
      simp only [ClosedForm, apply, beq_iff_eq] at closed later ⊢
      rw [sole_append zero_ne_one, closed, later]
  | maximum =>
      simp only [ClosedForm, apply, functions.larger_eq_max, List.mem_append]
      exact IsGreatest.union closed later
  | probabilisticSum =>
      simp only [ClosedForm, apply] at closed later ⊢
      rw [List.map_append, List.prod_append, closed, later]
      ring
  | boundedSum =>
      simp only [ClosedForm, apply, functions.smaller_eq_min] at closed later ⊢
      rw [closed, later, min_one_add (sum_nonneg first_inside) (sum_nonneg second_inside),
        List.sum_append]
  | drasticSum =>
      simp only [ClosedForm, apply, beq_iff_eq] at closed later ⊢
      rw [sole_append one_ne_zero, closed, later]

end Link.ClosedForm

namespace Link

variable [IsStrictOrderedRing K] (functions : Elementary K)

/-- A fold has the closed form of what it has gone through, after every degree. -/
theorem closedForm_fold (link : Link) {degrees : List K} (nonempty : degrees ≠ [])
    (inside : ∀ degree ∈ degrees, 0 ≤ degree ∧ degree ≤ 1) :
    letI := functions.scalar
    link.ClosedForm degrees (link.fold degrees) := by
  let := functions.scalar
  induction degrees using List.reverseRecOn with
  | nil => exact absurd rfl nonempty
  | append_singleton sofar last ih =>
      have sofar_inside := fun degree member => inside degree (List.mem_append_left [last] member)
      have last_inside := inside last List.mem_concat_self
      have lone : link.ClosedForm [last] last := .singleton last_inside
      by_cases start : sofar = []
      · rw [start]
        exact lone
      · rw [link.fold_concat start]
        exact .append functions sofar_inside
          (fun degree member => List.mem_singleton.1 member ▸ last_inside)
          (ih start sofar_inside) lone

omit [LinearOrder K] [IsStrictOrderedRing K] in
/-- The degree that has no effect on others. -/
def unit : Link → K
  | minimum | product | boundedProduct | drasticProduct => 1
  | maximum | probabilisticSum | boundedSum | drasticSum => 0

omit [IsStrictOrderedRing K] in
theorem apply_unit (link : Link) {degree : K} (inside : 0 ≤ degree ∧ degree ≤ 1) :
    letI := functions.scalar
    link.apply degree link.unit = degree ∧ link.apply link.unit degree = degree := by
  let := functions.scalar
  obtain ⟨nonneg, le_one⟩ := inside
  cases link with
  | minimum =>
      simp only [apply, unit, functions.smaller_eq_min]
      exact ⟨min_eq_left le_one, min_eq_right le_one⟩
  | product => exact ⟨mul_one degree, one_mul degree⟩
  | boundedProduct =>
      simp only [apply, unit, functions.larger_eq_max, add_sub_cancel_right, add_sub_cancel_left]
      exact ⟨max_eq_right nonneg, max_eq_right nonneg⟩
  | drasticProduct =>
      simp only [apply, unit, beq_self_eq_true, if_true, beq_iff_eq, true_and]
      split
      · rename_i same
        exact same.symm
      · rfl
  | maximum =>
      simp only [apply, unit, functions.larger_eq_max]
      exact ⟨max_eq_left nonneg, max_eq_right nonneg⟩
  | probabilisticSum => simp [apply, unit]
  | boundedSum =>
      simp only [apply, unit, functions.smaller_eq_min, add_zero, zero_add]
      exact ⟨min_eq_right le_one, min_eq_right le_one⟩
  | drasticSum =>
      simp only [apply, unit, beq_self_eq_true, if_true, beq_iff_eq, true_and]
      split
      · rename_i same
        exact same.symm
      · rfl

end Link

theorem forall₂_raised {α : Type} [Scalar α] {degrees raised : List α}
    (inside : ∀ degree ∈ degrees, IsDegree degree)
    (raised_inside : ∀ degree ∈ raised, IsDegree degree)
    (le : List.Forall₂ (· ≤ ·) degrees raised) : List.Forall₂ Raised degrees raised := by
  induction le with
  | nil => exact .nil
  | cons head tail ih =>
      rw [List.forall_mem_cons] at inside raised_inside
      exact .cons ⟨inside.1, raised_inside.1, head⟩ (ih inside.2 raised_inside.2)

/--
In exact arithmetic every link has a unit and folds degrees into the value of its closed form:
a degree again, whatever the order of the degrees, linked from the values of two parts, and not
lowered when degrees are raised.
-/
theorem folds_have_closed_forms [IsStrictOrderedRing K] (functions : Elementary K) :
    letI := functions.scalar
    ∀ link : Link,
      (∀ degree : K, IsDegree degree →
        link.apply degree link.unit = degree ∧ link.apply link.unit degree = degree) ∧
      ∀ degrees : List K, degrees ≠ [] → (∀ degree ∈ degrees, IsDegree degree) →
        link.ClosedForm degrees (link.fold degrees) ∧
        IsDegree (link.fold degrees) ∧
        (∀ permuted, degrees.Perm permuted → link.fold permuted = link.fold degrees) ∧
        (∀ more, more ≠ [] → (∀ degree ∈ more, IsDegree degree) →
          link.fold (degrees ++ more) = link.apply (link.fold degrees) (link.fold more)) ∧
        (∀ raised, (∀ degree ∈ raised, IsDegree degree) →
          List.Forall₂ (· ≤ ·) degrees raised → link.fold degrees ≤ link.fold raised) := by
  let := functions.scalar
  intro link
  refine ⟨fun degree => link.apply_unit functions, fun degrees nonempty inside => ?_⟩
  have closed := link.closedForm_fold functions nonempty inside
  have raises {raised : List K} (raised_inside : ∀ degree ∈ raised, IsDegree degree)
      (le : List.Forall₂ (· ≤ ·) degrees raised) : Raised (link.fold degrees) (link.fold raised) :=
    functions.raised_fold_of_apply (functions.raised_link link)
      (forall₂_raised inside raised_inside le)
  have unchanged : List.Forall₂ (· ≤ ·) degrees degrees :=
    List.forall₂_same.2 fun degree _ => le_refl degree
  refine ⟨closed, (raises inside unchanged).lower_inside, ?_, ?_, ?_⟩
  · intro permuted same
    have permuted_nonempty : permuted ≠ [] := fun none_left =>
      nonempty (List.perm_nil.1 (none_left ▸ same))
    have permuted_inside := fun degree member => inside degree (same.mem_iff.2 member)
    exact (link.closedForm_fold functions permuted_nonempty permuted_inside).unique
      (closed.perm same)
  · intro more some_more more_inside
    have both_inside : ∀ degree ∈ degrees ++ more, IsDegree degree :=
      List.forall_mem_append.2 ⟨inside, more_inside⟩
    have together := link.closedForm_fold functions
      (List.append_ne_nil_of_left_ne_nil nonempty more) both_inside
    have latter := link.closedForm_fold functions some_more more_inside
    exact together.unique (closed.append functions inside more_inside latter)
  · exact fun raised raised_inside le => (raises raised_inside le).le

def mixedDegrees : List ℚ :=
  [1 / 2, 1, 3 / 4]

theorem mixedDegrees_fold :
    Link.minimum.ClosedForm mixedDegrees (1 / 2) ∧
    Link.boundedProduct.ClosedForm mixedDegrees (1 / 4) ∧
    Link.drasticProduct.ClosedForm mixedDegrees 0 ∧
    Link.boundedProduct.fold [1, 3 / 4, 1 / 2] = Link.boundedProduct.fold mixedDegrees ∧
    Link.drasticSum.fold (mixedDegrees ++ [0, 1 / 3]) =
      Link.drasticSum.apply (Link.drasticSum.fold mixedDegrees) (Link.drasticSum.fold [0, 1 / 3]) ∧
    Link.probabilisticSum.fold mixedDegrees ≤ Link.probabilisticSum.fold [1 / 2, 1, 1] ∧
    Link.drasticProduct.apply (1 / 2 : ℚ) Link.drasticProduct.unit = 1 / 2 := by
  have inside : ∀ degree ∈ mixedDegrees, IsDegree degree := by
    simp only [mixedDegrees, List.forall_mem_cons]
    exact ⟨by decide +kernel, by decide +kernel, by decide +kernel, List.forall_mem_nil _⟩
  have more_inside : ∀ degree ∈ [0, (1 / 3 : ℚ)], IsDegree degree := by
    simp only [List.forall_mem_cons]
    exact ⟨by decide +kernel, by decide +kernel, List.forall_mem_nil _⟩
  have raised_inside : ∀ degree ∈ [1 / 2, 1, (1 : ℚ)], IsDegree degree := by
    simp only [List.forall_mem_cons]
    exact ⟨by decide +kernel, by decide +kernel, by decide +kernel, List.forall_mem_nil _⟩
  have some_degree : mixedDegrees ≠ [] := List.cons_ne_nil _ _
  have folds (link : Link) := (folds_have_closed_forms Elementary.rational link).2
    mixedDegrees some_degree inside
  have minimum_eq : Link.minimum.fold mixedDegrees = 1 / 2 := by decide +kernel
  have bounded_eq : Link.boundedProduct.fold mixedDegrees = 1 / 4 := by decide +kernel
  have drastic_eq : Link.drasticProduct.fold mixedDegrees = 0 := by decide +kernel
  obtain ⟨closed, -, same, -, -⟩ := folds .boundedProduct
  obtain ⟨-, -, -, appended, -⟩ := folds .drasticSum
  obtain ⟨-, -, -, -, raised⟩ := folds .probabilisticSum
  exact ⟨minimum_eq ▸ (folds .minimum).1, bounded_eq ▸ closed,
    drastic_eq ▸ (folds .drasticProduct).1, same _ (by decide +kernel), appended _ (List.cons_ne_nil _ _) more_inside,
    raised _ raised_inside
      (.cons (by decide +kernel) (.cons (by decide +kernel) (.cons (by decide +kernel) .nil))),
    ((folds_have_closed_forms Elementary.rational .drasticProduct).1 (1 / 2)
      (by decide +kernel)).1⟩

end FuzzyControl
