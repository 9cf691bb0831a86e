import Mathlib.Algebra.Order.Field.Basic
import Mathlib.Data.List.Nodup
import Mathlib.Data.List.Pairwise
import Mathlib.Order.Bounds.Basic
import Mathlib.Tactic.FieldSimp
import Mathlib.Tactic.Ring
import FuzzyControl.Proofs.Degree
import FuzzyControl.Scalar.Rational

/-!
# Piecewise linear sets

A set through points sorts them by abscissa and keeps points above one abscissa in order.  In
exact arithmetic its degrees are constant outside of the points and lie on the line between two
neighbours elsewhere: no segment is ever asked for that is missing or vertical.
-/

namespace FuzzyControl

open Scalar

namespace Interpolation

/-! ## Interpolation that may fail -/

section Partial

variable {α : Type} [Scalar α]

def between? (left right : α × α) (x : α) : Option α :=
  if right.1 == left.1 then none
  else some (left.2 + (x - left.1) * (right.2 - left.2) / (right.1 - left.1))

/-- Interpolates in the first segment that contains `x`, but fails if it is vertical or missing. -/
def inSegments? (x : α) : List (α × α) → Option α
  | left :: right :: rest =>
      if left.1 ≤ x ∧ x ≤ right.1 then between? left right x
      else inSegments? x (right :: rest)
  | _ => none

def value? (x : α) : List (α × α) → Option α
  | [] => none
  | first :: rest =>
      let last := rest.getLast?.getD first
      if x ≤ first.1 then some first.2
      else if last.1 ≤ x then some last.2
      else inSegments? x (first :: rest)

theorem inSegments_of_inSegments? {outside x value : α} {points : List (α × α)}
    (found : inSegments? x points = some value) : inSegments outside x points = value := by
  induction points with
  | nil => cases found
  | cons left later ih =>
      cases later with
      | nil => cases found
      | cons right rest =>
          rw [inSegments?] at found
          rw [inSegments]
          split
          · rename_i inside
            rw [if_pos inside, between?] at found
            split at found
            · cases found
            · rename_i slanted
              rw [between, if_neg slanted]
              exact Option.some.inj found
          · rename_i elsewhere
            rw [if_neg elsewhere] at found
            exact ih found

/-- An interpolation that does not fail takes none of the ways out. -/
theorem value_of_value? {x value : α} {points : List (α × α)}
    (found : value? x points = some value) : Interpolation.value x points = value := by
  cases points with
  | nil => cases found
  | cons first rest =>
      rw [value?] at found
      rw [Interpolation.value]
      split
      · rename_i before
        rw [if_pos before] at found
        exact Option.some.inj found
      · rename_i behind_first
        rw [if_neg behind_first] at found
        split
        · rename_i behind
          rw [if_pos behind] at found
          exact Option.some.inj found
        · rename_i inside
          rw [if_neg inside] at found
          exact inSegments_of_inSegments? found

end Partial

variable {K : Type} [Field K] [LinearOrder K]

/-! ## Lines -/

def line (left right : K × K) (x : K) : K :=
  left.2 + (x - left.1) * (right.2 - left.2) / (right.1 - left.1)

omit [LinearOrder K] in
theorem line_eq_mean {left right : K × K} (apart : right.1 - left.1 ≠ 0) (x : K) :
    line left right x =
      (left.2 * (right.1 - x) + right.2 * (x - left.1)) / (right.1 - left.1) := by
  unfold line
  field_simp
  ring

section Line

variable [IsStrictOrderedRing K] {left right : K × K} (ascends : left.1 < right.1)
include ascends

theorem line_right : line left right right.1 = right.2 := by
  have apart : right.1 - left.1 ≠ 0 := (sub_pos.2 ascends).ne'
  rw [line, mul_div_assoc, mul_div_cancel₀ _ apart, add_sub_cancel]

theorem line_mem {x low high : K} (start_le : left.1 ≤ x) (le_stop : x ≤ right.1)
    (left_inside : low ≤ left.2 ∧ left.2 ≤ high) (right_inside : low ≤ right.2 ∧ right.2 ≤ high) :
    low ≤ line left right x ∧ line left right x ≤ high := by
  have width : 0 < right.1 - left.1 := sub_pos.2 ascends
  have walked : 0 ≤ x - left.1 := sub_nonneg.2 start_le
  have ahead : 0 ≤ right.1 - x := sub_nonneg.2 le_stop
  have split_width (bound : K) :
      bound * (right.1 - left.1) = bound * (right.1 - x) + bound * (x - left.1) := by
    ring
  rw [line_eq_mean width.ne', le_div_iff₀ width, div_le_iff₀ width, split_width, split_width]
  exact ⟨add_le_add (mul_le_mul_of_nonneg_right left_inside.1 ahead)
      (mul_le_mul_of_nonneg_right right_inside.1 walked),
    add_le_add (mul_le_mul_of_nonneg_right left_inside.2 ahead)
      (mul_le_mul_of_nonneg_right right_inside.2 walked)⟩

end Line

/-! ## Segments -/

/-- The two neighbours around `x`: the second one is the first point that is not left of `x`. -/
structure Straddles (points : List (K × K)) (x : K) (index : Nat) (left right : K × K) :
    Prop where
  left_at : points[index]? = some left
  right_at : points[index + 1]? = some right
  least : IsLeast {position | ∃ point, points[position]? = some point ∧ x ≤ point.1} (index + 1)

namespace Straddles

omit [Field K]

variable {points : List (K × K)} {x : K} {index : Nat} {left right : K × K}

theorem left_lt (straddles : Straddles points x index left right) : left.1 < x := by
  by_contra reached
  have earlier := straddles.least.2 ⟨left, straddles.left_at, not_lt.1 reached⟩
  omega

theorem le_right (straddles : Straddles points x index left right) : x ≤ right.1 := by
  obtain ⟨point, here, reached⟩ := straddles.least.1
  rw [straddles.right_at] at here
  cases here
  exact reached

theorem ascends (straddles : Straddles points x index left right) : left.1 < right.1 :=
  straddles.left_lt.trans_le straddles.le_right

theorem here {first second : K × K} {rest : List (K × K)} (behind : first.1 < x)
    (reached : x ≤ second.1) : Straddles (first :: second :: rest) x 0 first second where
  left_at := rfl
  right_at := rfl
  least := by
    refine ⟨⟨second, rfl, reached⟩, ?_⟩
    rintro position ⟨point, there, at_least⟩
    cases position with
    | zero =>
        cases there
        exact absurd at_least (not_le.2 behind)
    | succ position => exact Nat.le_add_left 1 position

theorem cons {first : K × K} (straddles : Straddles points x index left right)
    (behind : first.1 < x) : Straddles (first :: points) x (index + 1) left right where
  left_at := straddles.left_at
  right_at := straddles.right_at
  least := by
    refine ⟨straddles.least.1, ?_⟩
    rintro position ⟨point, there, at_least⟩
    cases position with
    | zero =>
        cases there
        exact absurd at_least (not_le.2 behind)
    | succ position => exact Nat.succ_le_succ (straddles.least.2 ⟨point, there, at_least⟩)

end Straddles

section Scan

variable (functions : Elementary K) {x : K}

theorem between?_of_ascends {left right : K × K} (ascends : left.1 < right.1) :
    letI := functions.scalar
    between? left right x = some (line left right x) := by
  let := functions.scalar
  rw [between?, beq_false_of_ne ascends.ne', if_neg Bool.false_ne_true]
  rfl

/-- Behind the first point and before some later one, the scan stops at the neighbours of `x`. -/
theorem inSegments?_straddles {first : K × K} {rest : List (K × K)} (behind : first.1 < x)
    (before : ∃ point ∈ rest, x ≤ point.1) :
    letI := functions.scalar
    ∃ index left right, Straddles (first :: rest) x index left right ∧
      inSegments? x (first :: rest) = some (line left right x) := by
  let := functions.scalar
  induction rest generalizing first with
  | nil =>
      obtain ⟨_, member, _⟩ := before
      cases member
  | cons second later ih =>
      rw [inSegments?]
      by_cases reached : x ≤ second.1
      · have here : Straddles (first :: second :: later) x 0 first second := .here behind reached
        rw [if_pos ⟨behind.le, reached⟩]
        exact ⟨0, first, second, here, between?_of_ascends functions here.ascends⟩
      · -- what is passed over is left of `x`, so the next segment starts before it again
        have still_before : ∃ point ∈ later, x ≤ point.1 := by
          obtain ⟨point, member, at_least⟩ := before
          rcases List.mem_cons.1 member with rfl | further
          · exact absurd at_least reached
          · exact ⟨point, further, at_least⟩
        obtain ⟨index, left, right, straddles, found⟩ := ih (not_le.1 reached) still_before
        rw [if_neg fun inside => reached inside.2]
        exact ⟨index + 1, left, right, straddles.cons behind, found⟩

/-! ## Values -/

variable {first last : K × K} {points : List (K × K)} (is_first : points.head? = some first)

include is_first

theorem value?_before (before : x ≤ first.1) :
    letI := functions.scalar
    value? x points = some first.2 := by
  let := functions.scalar
  obtain ⟨rest, rfl⟩ := List.head?_eq_some_iff.1 is_first
  exact if_pos before

variable (is_last : points.getLast? = some last)

include is_last

theorem value?_behind (behind_first : first.1 < x) (behind : last.1 ≤ x) :
    letI := functions.scalar
    value? x points = some last.2 := by
  let := functions.scalar
  obtain ⟨rest, rfl⟩ := List.head?_eq_some_iff.1 is_first
  have last_eq : rest.getLast?.getD first = last := by
    rw [List.getLast?_cons] at is_last
    exact Option.some.inj is_last
  rw [value?, last_eq, if_neg (not_le.2 behind_first), if_pos behind]

theorem value?_inside (behind_first : first.1 < x) (before_last : x < last.1) :
    letI := functions.scalar
    ∃ index left right, Straddles points x index left right ∧
      value? x points = some (line left right x) := by
  let := functions.scalar
  obtain ⟨rest, rfl⟩ := List.head?_eq_some_iff.1 is_first
  have last_eq : rest.getLast?.getD first = last := by
    rw [List.getLast?_cons] at is_last
    exact Option.some.inj is_last
  have before : ∃ point ∈ rest, x ≤ point.1 := by
    rcases List.mem_cons.1 (List.mem_of_getLast? is_last) with rfl | later
    · exact absurd before_last behind_first.not_gt
    · exact ⟨last, later, before_last.le⟩
  rw [value?, last_eq, if_neg (not_le.2 behind_first), if_neg (not_le.2 before_last)]
  exact inSegments?_straddles functions behind_first before

end Scan

omit [Field K] in
/-- An abscissa lies on one side of all points or between the first and the last. -/
theorem exists_ends {points : List (K × K)} (some_point : points ≠ []) (x : K) :
    ∃ first last, points.head? = some first ∧ points.getLast? = some last ∧
      (x ≤ first.1 ∨ first.1 < x ∧ last.1 ≤ x ∨ first.1 < x ∧ x < last.1) := by
  refine ⟨_, _, List.head?_eq_some_head some_point, List.getLast?_eq_some_getLast some_point, ?_⟩
  rcases le_or_gt x (points.head some_point).1 with before | behind_first
  · exact .inl before
  · rcases le_or_gt (points.getLast some_point).1 x with behind | before_last
    · exact .inr (.inl ⟨behind_first, behind⟩)
    · exact .inr (.inr ⟨behind_first, before_last⟩)

/-- Wherever there are points, no step of the interpolation fails. -/
theorem value?_eq_some (functions : Elementary K) {points : List (K × K)} (some_point : points ≠ [])
    (x : K) :
    letI := functions.scalar
    value? x points = some (Interpolation.value x points) := by
  let := functions.scalar
  have found : ∃ value, value? x points = some value := by
    obtain ⟨first, last, is_first, is_last, before | ⟨behind_first, behind⟩ |
      ⟨behind_first, before_last⟩⟩ := exists_ends some_point x
    · exact ⟨_, value?_before functions is_first before⟩
    · exact ⟨_, value?_behind functions is_first is_last behind_first behind⟩
    · obtain ⟨_, _, _, _, found⟩ :=
        value?_inside functions is_first is_last behind_first before_last
      exact ⟨_, found⟩
  obtain ⟨value, found⟩ := found
  rw [found, value_of_value? found]

/-- The heights are those of the piecewise linear function through the points. -/
structure Interpolates (points : List (K × K)) (height : K → K) : Prop where
  before : ∀ first x, points.head? = some first → x ≤ first.1 → height x = first.2
  behind : ∀ first last x, points.head? = some first → points.getLast? = some last →
    first.1 < x → last.1 ≤ x → height x = last.2
  inside : ∀ first last x, points.head? = some first → points.getLast? = some last →
    first.1 < x → x < last.1 → ∃ index left right, Straddles points x index left right ∧
      left.1 < right.1 ∧ height x = line left right x ∧
      min left.2 right.2 ≤ height x ∧ height x ≤ max left.2 right.2

theorem interpolates_value [IsStrictOrderedRing K] (functions : Elementary K)
    (points : List (K × K)) :
    letI := functions.scalar
    Interpolates points fun x => Interpolation.value x points := by
  let := functions.scalar
  refine ⟨fun first x is_first left_of => ?_,
    fun first last x is_first is_last behind_first behind => ?_,
    fun first last x is_first is_last behind_first before_last => ?_⟩
  · exact value_of_value? (value?_before functions is_first left_of)
  · exact value_of_value? (value?_behind functions is_first is_last behind_first behind)
  · obtain ⟨index, left, right, straddles, found⟩ :=
      value?_inside functions is_first is_last behind_first before_last
    have height_eq := value_of_value? found
    have between := line_mem straddles.ascends straddles.left_lt.le straddles.le_right
      ⟨min_le_left left.2 right.2, le_max_left left.2 right.2⟩
      ⟨min_le_right left.2 right.2, le_max_right left.2 right.2⟩
    rw [← height_eq] at between
    exact ⟨index, left, right, straddles, straddles.ascends, height_eq, between⟩

/-- Bounds of the ordinates bound all heights. -/
theorem Interpolates.mem {points : List (K × K)} {height : K → K}
    (interpolates : Interpolates points height) (some_point : points ≠ []) {low high : K}
    (inside : ∀ point ∈ points, low ≤ point.2 ∧ point.2 ≤ high) (x : K) :
    low ≤ height x ∧ height x ≤ high := by
  obtain ⟨first, last, is_first, is_last, before | ⟨behind_first, behind⟩ |
    ⟨behind_first, before_last⟩⟩ := exists_ends some_point x
  · rw [interpolates.before first x is_first before]
    exact inside first (List.mem_of_head? is_first)
  · rw [interpolates.behind first last x is_first is_last behind_first behind]
    exact inside last (List.mem_of_getLast? is_last)
  · obtain ⟨index, left, right, straddles, _, _, min_le, le_max⟩ :=
      interpolates.inside first last x is_first is_last behind_first before_last
    have left_inside := inside left (List.mem_of_getElem? straddles.left_at)
    have right_inside := inside right (List.mem_of_getElem? straddles.right_at)
    exact ⟨(le_min left_inside.1 right_inside.1).trans min_le,
      le_max.trans (max_le left_inside.2 right_inside.2)⟩

/-- The ordinates bound the interpolation, which is zero without any points. -/
theorem value_mem [IsStrictOrderedRing K] (functions : Elementary K) {points : List (K × K)}
    {high : K} (nonneg : 0 ≤ high) (inside : ∀ point ∈ points, 0 ≤ point.2 ∧ point.2 ≤ high)
    (x : K) :
    letI := functions.scalar
    0 ≤ Interpolation.value x points ∧ Interpolation.value x points ≤ high := by
  let := functions.scalar
  by_cases some_point : points = []
  · rw [some_point]
    exact ⟨le_refl 0, nonneg⟩
  · exact (interpolates_value functions points).mem some_point inside x

/-! ## Points in order -/

/-- The points in ascending order of abscissas, those above one abscissa in the given order. -/
structure StablySorts (sorted points : List (K × K)) : Prop where
  perm : sorted.Perm points
  ascending : sorted.Pairwise fun first second => first.1 ≤ second.1
  stable : ∀ x, (sorted.filter fun point => point.1 = x) = points.filter fun point => point.1 = x

theorem stablySorts_sortPoints (functions : Elementary K) (points : List (K × K)) :
    letI := functions.scalar
    StablySorts (FuzzySet.sortPoints points) points := by
  let := functions.scalar
  have transitive (first second third : K × K) (earlier : precedes first.1 second.1 = true)
      (later : precedes second.1 third.1 = true) : precedes first.1 third.1 = true :=
    decide_eq_true ((of_decide_eq_true earlier).trans (of_decide_eq_true later))
  have total (first second : K × K) :
      (precedes first.1 second.1 || precedes second.1 first.1) = true := by
    rw [Bool.or_eq_true]
    exact (le_total first.1 second.1).imp decide_eq_true decide_eq_true
  have permuted : (FuzzySet.sortPoints points).Perm points := List.mergeSort_perm _ _
  refine ⟨permuted, ?_, fun x => ?_⟩
  · exact (List.pairwise_mergeSort transitive total points).imp of_decide_eq_true
  · -- the points above one abscissa are in order as they stand, so sorting keeps them as they are
    have in_order : (points.filter fun point => point.1 = x).Pairwise
        fun first second => precedes first.1 second.1 = true := by
      refine List.pairwise_filter.2 (List.pairwise_of_forall fun _ _ first_at second_at => ?_)
      rw [of_decide_eq_true first_at, of_decide_eq_true second_at]
      exact decide_eq_true (le_refl x)
    have kept := (List.sublist_mergeSort transitive total in_order List.filter_sublist).filter
      fun point => decide (point.1 = x)
    rw [List.filter_filter] at kept
    simp only [Bool.and_self] at kept
    exact (kept.eq_of_length (permuted.filter _).length_eq.symm).symm

namespace StablySorts

variable {points sorted : List (K × K)} (sorts : StablySorts sorted points)
  (distinct : (points.map (·.1)).Nodup)
include sorts distinct

omit [Field K] in
theorem eq_of_abscissa_eq {first second : K × K} (first_member : first ∈ sorted)
    (second_member : second ∈ sorted) (same : first.1 = second.1) : first = second :=
  List.inj_on_of_nodup_map distinct (sorts.perm.mem_iff.1 first_member)
    (sorts.perm.mem_iff.1 second_member) same

omit [Field K] in
/-- Points above different abscissas have only one ascending order. -/
theorem eq_of_perm {other : List (K × K)} (permuted : other.Perm points)
    (ascending : other.Pairwise fun first second => first.1 ≤ second.1) : other = sorted := by
  have same_points := permuted.trans sorts.perm.symm
  refine List.Perm.eq_of_pairwise ?_ ascending sorts.ascending same_points
  intro first second first_member second_member first_le second_le
  exact sorts.eq_of_abscissa_eq distinct (same_points.mem_iff.1 first_member) second_member
    (le_antisymm first_le second_le)

theorem height_at_point [IsStrictOrderedRing K] {height : K → K}
    (interpolates : Interpolates sorted height) {point : K × K} (member : point ∈ sorted) :
    height point.1 = point.2 := by
  have some_point : sorted ≠ [] := List.ne_nil_of_mem member
  have is_first := List.head?_eq_some_head some_point
  have is_last := List.getLast?_eq_some_getLast some_point
  have first_le := sorts.ascending.rel_head member
  have le_last := sorts.ascending.rel_getLast member
  rcases first_le.eq_or_lt with same | behind_first
  · rw [interpolates.before _ _ is_first same.ge,
      sorts.eq_of_abscissa_eq distinct (List.head_mem some_point) member same]
  · rcases le_last.eq_or_lt with same | before_last
    · rw [interpolates.behind _ _ _ is_first is_last behind_first same.ge,
        sorts.eq_of_abscissa_eq distinct (List.getLast_mem some_point) member same.symm]
    · obtain ⟨index, left, right, straddles, ascends, height_eq, -⟩ :=
        interpolates.inside _ _ _ is_first is_last behind_first before_last
      obtain ⟨position, found⟩ := List.mem_iff_getElem?.1 member
      -- the point is not left of its own abscissa, so the segment ends there at the latest
      have reached : index + 1 ≤ position := straddles.least.2 ⟨point, found, le_refl _⟩
      have right_le : right.1 ≤ point.1 := by
        obtain ⟨right_less, rfl⟩ := List.getElem?_eq_some_iff.1 straddles.right_at
        obtain ⟨less, rfl⟩ := List.getElem?_eq_some_iff.1 found
        exact sorts.ascending.rel_get_of_le (a := ⟨index + 1, right_less⟩)
          (b := ⟨position, less⟩) reached
      have same := sorts.eq_of_abscissa_eq distinct (List.mem_of_getElem? straddles.right_at)
        member (le_antisymm right_le straddles.le_right)
      rw [height_eq, ← same, line_right ascends]

end StablySorts

end Interpolation

/-! ## Sets -/

namespace FuzzySet

open Interpolation

variable {K : Type} [Field K] [LinearOrder K]

/-- Points are accepted if their ordinates are degrees, and then they are sorted. -/
theorem ofPoints_eq_ok_iff (functions : Elementary K) {points : List (K × K)} {set : FuzzySet K} :
    letI := functions.scalar
    ofPoints points = .ok set ↔
      (∀ point ∈ points, IsDegree point.2) ∧ set = .pointwise (sortPoints points) := by
  let := functions.scalar
  have isPoint_iff (point : K × K) : isPoint point = true ↔ IsDegree point.2 := by
    rw [isPoint, isNumber, beq_self_eq_true, Bool.true_and, decide_eq_true_eq]
  unfold ofPoints
  split
  · rename_i point refused
    have no_degree : ¬IsDegree point.2 := by
      rw [← isPoint_iff, Bool.not_eq_true]
      simpa using List.find?_some refused
    constructor
    · intro accepted
      cases accepted
    · rintro ⟨inside, _⟩
      exact absurd (inside point (List.mem_of_find?_eq_some refused)) no_degree
  · rename_i none_refused
    have inside : ∀ point ∈ points, IsDegree point.2 := fun point member =>
      (isPoint_iff point).1 (by simpa using List.find?_eq_none.1 none_refused point member)
    constructor
    · intro accepted
      cases accepted
      exact ⟨inside, rfl⟩
    · rintro ⟨_, rfl⟩
      rfl

/-- Between ordinates that are degrees nothing has to be clamped. -/
theorem degree_pointwise [IsStrictOrderedRing K] (functions : Elementary K)
    {points : List (K × K)} (inside : ∀ point ∈ points, 0 ≤ point.2 ∧ point.2 ≤ 1) (x : K) :
    letI := functions.scalar
    (pointwise points).degree x = Interpolation.value x points := by
  let := functions.scalar
  exact functions.toDegree_eq (value_mem functions zero_le_one inside x)

end FuzzySet

open Interpolation

/--
In exact arithmetic a set through one or more points whose ordinates are degrees keeps them in
stable order.  Its degrees are those of the first point up to that point, of the last point from
there on, and lie on the line between two neighbours otherwise, which no failing step can spoil.
Points above different abscissas are met by the set, and it does not matter in which order they
were given.
-/
theorem point_sets_interpolate {K : Type} [Field K] [LinearOrder K] [IsStrictOrderedRing K]
    (functions : Elementary K) :
    letI := functions.scalar
    ∀ points : List (K × K), points ≠ [] → (∀ point ∈ points, IsDegree point.2) →
      ∃ sorted : List (K × K), FuzzySet.ofPoints points = .ok (.pointwise sorted) ∧
        StablySorts sorted points ∧
        Interpolates sorted (fun x => (FuzzySet.pointwise sorted).degree x) ∧
        (∀ x, value? x sorted = some ((FuzzySet.pointwise sorted).degree x)) ∧
        ((points.map (·.1)).Nodup →
          (∀ point ∈ points, (FuzzySet.pointwise sorted).degree point.1 = point.2) ∧
          ∀ permuted : List (K × K), permuted.Perm points →
            FuzzySet.ofPoints permuted = .ok (.pointwise sorted)) := by
  let := functions.scalar
  intro points some_point inside
  have sorts := stablySorts_sortPoints functions points
  have sorted_inside : ∀ point ∈ FuzzySet.sortPoints points, IsDegree point.2 :=
    fun point member => inside point (sorts.perm.mem_iff.1 member)
  have some_sorted : FuzzySet.sortPoints points ≠ [] := fun none_left =>
    some_point (List.nil_perm.1 (none_left ▸ sorts.perm))
  have degree_eq := FuzzySet.degree_pointwise functions sorted_inside
  have interpolates := interpolates_value functions (FuzzySet.sortPoints points)
  rw [← funext degree_eq] at interpolates
  refine ⟨_, (FuzzySet.ofPoints_eq_ok_iff functions).2 ⟨inside, rfl⟩, sorts, interpolates,
    fun x => ?_, fun distinct => ⟨fun point member => ?_, fun permuted same_points => ?_⟩⟩
  · rw [degree_eq]
    exact value?_eq_some functions some_sorted x
  · exact sorts.height_at_point distinct interpolates (sorts.perm.mem_iff.2 member)
  · have other := stablySorts_sortPoints functions permuted
    have same := sorts.eq_of_perm distinct (other.perm.trans same_points) other.ascending
    exact (FuzzySet.ofPoints_eq_ok_iff functions).2
      ⟨fun point member => inside point (same_points.mem_iff.1 member), by rw [same]⟩

def tent : List (ℚ × ℚ) :=
  [(2, 0), (1, 1), (3, 1 / 2)]

/-- Points of which two lie above one abscissa. -/
def cliff : List (ℚ × ℚ) :=
  [(2, 1 / 4), (0, 0), (2, 1), (3, 1)]

theorem tent_interpolates :
    (∃ set, FuzzySet.ofPoints tent = .ok set ∧
      FuzzySet.ofPoints [(3, 1 / 2), (1, 1), (2, 0)] = .ok set ∧
      set.degree 0 = 1 ∧ set.degree (3 / 2) = 1 / 2 ∧ set.degree 3 = 1 / 2) ∧
    ∃ sorted, FuzzySet.ofPoints cliff = .ok (.pointwise sorted) ∧
      (sorted.filter fun point => point.1 = 2) = [(2, 1 / 4), (2, 1)] := by
  have tent_inside : ∀ point ∈ tent, IsDegree point.2 := by
    simp only [tent, List.forall_mem_cons]
    exact ⟨by decide +kernel, by decide +kernel, by decide +kernel, List.forall_mem_nil _⟩
  have cliff_inside : ∀ point ∈ cliff, IsDegree point.2 := by
    simp only [cliff, List.forall_mem_cons]
    exact ⟨by decide +kernel, by decide +kernel, by decide +kernel, by decide +kernel,
      List.forall_mem_nil _⟩
  have distinct : (tent.map (·.1)).Nodup := by decide +kernel
  obtain ⟨sorted, accepted, sorts, interpolates, found, meets⟩ :=
    point_sets_interpolate Elementary.rational tent (List.cons_ne_nil _ _) tent_inside
  obtain ⟨sortedCliff, accepted_cliff, sorts_cliff, -⟩ :=
    point_sets_interpolate Elementary.rational cliff (List.cons_ne_nil _ _) cliff_inside
  have sorted_eq : [(1, 1), (2, 0), (3, 1 / 2)] = sorted :=
    sorts.eq_of_perm distinct (by decide +kernel) (by decide +kernel)
  have halfway : value? (3 / 2) [((1 : ℚ), (1 : ℚ)), (2, 0), (3, 1 / 2)] = some (1 / 2) := by
    decide +kernel
  have at_half := found (3 / 2)
  rw [← sorted_eq, halfway] at at_half
  subst sorted_eq
  obtain ⟨met, reordered⟩ := meets distinct
  exact ⟨⟨_, accepted, reordered _ (by decide +kernel),
    interpolates.before (1, 1) 0 rfl (by decide +kernel), (Option.some.inj at_half).symm,
    met (3, 1 / 2) (by decide +kernel)⟩, sortedCliff, accepted_cliff, sorts_cliff.stable 2⟩

end FuzzyControl
