import Mathlib.Algebra.BigOperators.Ring.List
import Mathlib.Algebra.Order.BigOperators.Group.List
import Mathlib.Algebra.Order.Field.Basic
import Mathlib.Data.List.MinMax
import Mathlib.Tactic.Linarith
import Mathlib.Tactic.Ring
import FuzzyControl.Link
import FuzzyControl.Scalar.Exact

/-!
# Means and folds in exact arithmetic

A mean by weights lies between the values of positive weight.  The links that aggregate
sets fold degrees into an upper bound and into the complement of a product, so neither
the order of the degrees matters nor how many of them are zero.
-/

namespace FuzzyControl

variable {K ρ : Type} [Field K] [LinearOrder K] [IsStrictOrderedRing K]

/-! ## Means -/

section Mean

variable {items : List ρ} {weight : ρ → K} (nonneg : ∀ item ∈ items, 0 ≤ weight item)

include nonneg

theorem sum_weights_nonneg : 0 ≤ (items.map weight).sum :=
  List.sum_nonneg fun value member => by
    obtain ⟨item, inside, rfl⟩ := List.mem_map.1 member
    exact nonneg item inside

theorem sum_weights_eq_zero_iff :
    (items.map weight).sum = 0 ↔ ∀ item ∈ items, weight item = 0 := by
  constructor
  · intro no_weight item member
    refine List.all_zero_of_le_zero_le_of_sum_eq_zero ?_ no_weight (List.mem_map_of_mem member)
    intro value inside
    obtain ⟨other, own, rfl⟩ := List.mem_map.1 inside
    exact nonneg other own
  · intro weightless
    rw [List.map_congr_left weightless, List.sum_map_zero]

theorem mean_mem {value : ρ → K} {low high : K}
    (some_weight : (items.map weight).sum ≠ 0)
    (inside : ∀ item ∈ items, 0 < weight item → low ≤ value item ∧ value item ≤ high) :
    low ≤ (items.map fun item => value item * weight item).sum / (items.map weight).sum ∧
      (items.map fun item => value item * weight item).sum / (items.map weight).sum ≤ high := by
  have positive : 0 < (items.map weight).sum :=
    lt_of_le_of_ne (sum_weights_nonneg nonneg) some_weight.symm
  -- an item without weight adds nothing on either side, wherever its value lies
  have bounded : ∀ item ∈ items, low * weight item ≤ value item * weight item ∧
      value item * weight item ≤ high * weight item := by
    intro item member
    rcases (nonneg item member).eq_or_lt with weightless | weighs
    · simp [← weightless]
    · obtain ⟨low_le, le_high⟩ := inside item member weighs
      exact ⟨mul_le_mul_of_nonneg_right low_le weighs.le,
        mul_le_mul_of_nonneg_right le_high weighs.le⟩
  rw [le_div_iff₀ positive, div_le_iff₀ positive, ← List.sum_map_mul_left, ← List.sum_map_mul_left]
  exact ⟨List.sum_le_sum fun item member => (bounded item member).1,
    List.sum_le_sum fun item member => (bounded item member).2⟩

end Mean

theorem average_mem {values : List K} (some_value : values ≠ []) {low high : K}
    (inside : ∀ value ∈ values, low ≤ value ∧ value ≤ high) :
    low ≤ values.sum / (values.length : K) ∧ values.sum / (values.length : K) ≤ high := by
  have count_eq : (values.map fun _ => (1 : K)).sum = values.length := by
    rw [List.map_const', List.sum_replicate, nsmul_one]
  have some_weight : (values.map fun _ => (1 : K)).sum ≠ 0 := by
    rw [count_eq]
    exact Nat.cast_ne_zero.2 (mt List.length_eq_zero_iff.1 some_value)
  have mean := mean_mem (fun _ _ => zero_le_one) some_weight fun value member _ =>
    inside value member
  simpa only [mul_one, List.map_id', count_eq] using mean

omit [Field K] [IsStrictOrderedRing K] in
theorem exists_extremes {items : List ρ} (some_item : items ≠ []) (value : ρ → K) :
    ∃ least ∈ items, ∃ greatest ∈ items,
      ∀ item ∈ items, value least ≤ value item ∧ value item ≤ value greatest := by
  obtain ⟨least, is_least⟩ := Option.ne_none_iff_exists'.1
    (mt (List.argmin_eq_none (f := value)).1 some_item)
  obtain ⟨greatest, is_greatest⟩ := Option.ne_none_iff_exists'.1
    (mt (List.argmax_eq_none (f := value)).1 some_item)
  exact ⟨least, List.argmin_mem is_least, greatest, List.argmax_mem is_greatest,
    fun item member => ⟨List.le_of_mem_argmin member is_least,
      List.le_of_mem_argmax member is_greatest⟩⟩

/-! ## Folds -/

/-- Items that have no effect on a fold may be left out. -/
theorem foldr_map_filter {γ : Type} {op : γ → γ → γ} {initial : γ} {term : ρ → γ}
    {keep : ρ → Bool} {items : List ρ}
    (idle : ∀ item ∈ items, keep item = false → ∀ sofar, op (term item) sofar = sofar) :
    ((items.filter keep).map term).foldr op initial = (items.map term).foldr op initial := by
  induction items with
  | nil => rfl
  | cons first rest ih =>
      have rest_eq := ih fun item member => idle item (List.mem_cons_of_mem _ member)
      rw [List.map_cons, List.foldr_cons, ← rest_eq]
      cases kept : keep first with
      | true => rw [List.filter_cons_of_pos kept, List.map_cons, List.foldr_cons]
      | false =>
          rw [List.filter_cons_of_neg (Bool.not_eq_true _ ▸ kept),
            idle first List.mem_cons_self kept]

omit [LinearOrder K] [IsStrictOrderedRing K] in
theorem sum_map_filter {term : ρ → K} {keep : ρ → Bool} {items : List ρ}
    (idle : ∀ item ∈ items, keep item = false → term item = 0) :
    ((items.filter keep).map term).sum = (items.map term).sum :=
  foldr_map_filter fun item member dropped sofar => by rw [idle item member dropped, zero_add]

omit [LinearOrder K] [IsStrictOrderedRing K] in
theorem prod_map_filter {term : ρ → K} {keep : ρ → Bool} {items : List ρ}
    (idle : ∀ item ∈ items, keep item = false → term item = 1) :
    ((items.filter keep).map term).prod = (items.map term).prod :=
  foldr_map_filter fun item member dropped sofar => by rw [idle item member dropped, one_mul]

omit [Field K] [IsStrictOrderedRing K] in
theorem foldl_max_le_iff {values : List K} {initial bound : K} :
    values.foldl max initial ≤ bound ↔ initial ≤ bound ∧ ∀ value ∈ values, value ≤ bound := by
  induction values generalizing initial with
  | nil => simp
  | cons first rest ih =>
      rw [List.foldl_cons, ih, max_le_iff, List.forall_mem_cons, and_assoc]

namespace Elementary

variable (functions : Elementary K)

omit [IsStrictOrderedRing K] in
theorem total_eq_sum (values : List K) :
    letI := functions.scalar
    Scalar.total values = values.sum :=
  List.sum_eq_foldl.symm

omit [IsStrictOrderedRing K] in
theorem foldl_larger (values : List K) (initial : K) :
    letI := functions.scalar
    values.foldl Scalar.larger initial = values.foldl max initial := by
  let := functions.scalar
  have larger_eq : (Scalar.larger : K → K → K) = max :=
    funext fun first => funext (functions.larger_eq_max first)
  rw [larger_eq]

omit [IsStrictOrderedRing K] in
theorem fold_maximum_le_iff {degrees : List K} (nonneg : ∀ degree ∈ degrees, 0 ≤ degree)
    {bound : K} :
    letI := functions.scalar
    Link.maximum.fold degrees ≤ bound ↔ 0 ≤ bound ∧ ∀ degree ∈ degrees, degree ≤ bound := by
  let := functions.scalar
  cases degrees with
  | nil => simp [Link.fold]
  | cons first rest =>
      have fold_eq : Link.maximum.fold (first :: rest) = rest.foldl max first :=
        functions.foldl_larger rest first
      rw [fold_eq, foldl_max_le_iff, List.forall_mem_cons]
      exact ⟨fun ⟨first_le, rest_le⟩ =>
        ⟨(nonneg first List.mem_cons_self).trans first_le, first_le, rest_le⟩, And.right⟩

omit [IsStrictOrderedRing K] in
theorem fold_probabilisticSum (degrees : List K) :
    letI := functions.scalar
    Link.probabilisticSum.fold degrees = 1 - (degrees.map (1 - ·)).prod := by
  let := functions.scalar
  cases degrees with
  | nil => simp [Link.fold]
  | cons first rest =>
      change rest.foldl Link.probabilisticSum.apply first = _
      induction rest generalizing first with
      | nil => simp
      | cons second rest ih =>
          rw [List.foldl_cons, ih]
          simp only [Link.apply, List.map_cons, List.prod_cons]
          ring

end Elementary

end FuzzyControl
