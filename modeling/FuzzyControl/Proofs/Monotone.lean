import Mathlib.Algebra.Order.Field.Basic
import Mathlib.Order.Monotone.Basic
import FuzzyControl.Proofs.Degree
import FuzzyControl.Proofs.Duality

/-!
# The order of degrees

On degrees every link is monotone, the drastic ones with their jumps included, and so is
every fold.  Complements reverse the order, and a weaker hedge never gives a lower degree.
-/

namespace FuzzyControl

open Scalar LawfulDegrees

namespace Hedge

def reshape {α : Type} [Scalar α] (hedge : Option Hedge) (degree : α) : α :=
  match hedge with
  | some hedge => hedge.apply degree
  | none => degree

/-- How little a hedge asks for; no hedge at all stands between the strong and the weak ones. -/
def weakness : Option Hedge → Nat
  | some extremely => 0
  | some very => 1
  | none => 2
  | some somewhat => 3
  | some slightly => 4

end Hedge

/-- Complements reverse the order of degrees, links and hedges keep it, and weak hedges raise. -/
class OrderedDegrees (α : Type) [Scalar α] : Prop where
  degree_le_refl : ∀ degree : α, degree ≤ degree
  complement_le_complement : ∀ {lower upper : α}, lower ≤ upper → 1 - upper ≤ 1 - lower
  apply_le_apply : ∀ (link : Link) {first second firstRaised secondRaised : α},
    IsDegree first → IsDegree second → IsDegree firstRaised → IsDegree secondRaised →
      first ≤ firstRaised → second ≤ secondRaised →
        link.apply first second ≤ link.apply firstRaised secondRaised
  reshape_le_reshape : ∀ (hedge : Option Hedge) {lower upper : α}, IsDegree lower →
    IsDegree upper → lower ≤ upper → Hedge.reshape hedge lower ≤ Hedge.reshape hedge upper
  reshape_weaker : ∀ {strong weak : Option Hedge} {degree : α}, IsDegree degree →
    Hedge.weakness strong ≤ Hedge.weakness weak →
      Hedge.reshape strong degree ≤ Hedge.reshape weak degree

open OrderedDegrees

/-! ## Ordered fields -/

namespace Elementary

variable {K : Type} [Field K] [LinearOrder K] [IsStrictOrderedRing K]

section Links

variable (functions : Elementary K)

theorem conjunction_le_conjunction (conjunction : Conjunction)
    {first second firstRaised secondRaised : K} (second_degree : 0 ≤ second ∧ second ≤ 1)
    (raised_degree : 0 ≤ firstRaised ∧ firstRaised ≤ 1)
    (other_degree : 0 ≤ secondRaised ∧ secondRaised ≤ 1)
    (first_le : first ≤ firstRaised) (second_le : second ≤ secondRaised) :
    letI := functions.scalar
    conjunction.link.apply first second ≤ conjunction.link.apply firstRaised secondRaised := by
  cases conjunction with
  | minimum =>
      simp only [Conjunction.link, Link.apply, functions.smaller_eq_min]
      exact min_le_min first_le second_le
  | product => exact mul_le_mul first_le second_le second_degree.1 raised_degree.1
  | boundedProduct =>
      simp only [Conjunction.link, Link.apply, functions.larger_eq_max]
      exact max_le_max (le_refl 0) (sub_le_sub_right (add_le_add first_le second_le) 1)
  | drasticProduct =>
      have raised_nonneg :=
        (functions.isDegree_link .drasticProduct raised_degree other_degree).1
      simp only [Conjunction.link, Link.apply, beq_iff_eq] at raised_nonneg ⊢
      by_cases second_one : second = 1
      · have other_one : secondRaised = 1 := le_antisymm other_degree.2 (second_one ▸ second_le)
        rw [if_pos second_one, if_pos other_one]
        exact first_le
      · rw [if_neg second_one]
        by_cases first_one : first = 1
        · -- one argument stays at one, so the other one is the value or is at one itself
          have raised_one : firstRaised = 1 := le_antisymm raised_degree.2 (first_one ▸ first_le)
          rw [if_pos first_one, if_pos raised_one]
          split
          · rw [raised_one]
            exact second_degree.2
          · exact second_le
        · rw [if_neg first_one]
          exact raised_nonneg

/-- The other four links are monotone because their duals are. -/
theorem apply_le_apply (link : Link) {first second firstRaised secondRaised : K}
    (first_degree : 0 ≤ first ∧ first ≤ 1) (second_degree : 0 ≤ second ∧ second ≤ 1)
    (raised_degree : 0 ≤ firstRaised ∧ firstRaised ≤ 1)
    (other_degree : 0 ≤ secondRaised ∧ secondRaised ≤ 1)
    (first_le : first ≤ firstRaised) (second_le : second ≤ secondRaised) :
    letI := functions.scalar
    link.apply first second ≤ link.apply firstRaised secondRaised := by
  let := functions.scalar
  obtain ⟨conjunction, rfl | rfl⟩ := link.exists_conjunction
  · exact functions.conjunction_le_conjunction conjunction second_degree raised_degree
      other_degree first_le second_le
  · have dual_le := functions.conjunction_le_conjunction conjunction
      (complement_mem other_degree) (complement_mem first_degree) (complement_mem second_degree)
      (sub_le_sub_left first_le 1) (sub_le_sub_left second_le 1)
    rw [functions.dual_apply, functions.dual_apply]
    exact sub_le_sub_left dual_le 1

end Links

section Hedges

variable (functions : Elementary K)

/-- A degree reshaped, from the strongest hedge to the weakest. -/
def ladder (degree : K) : Nat → K
  | 0 => degree * degree * degree
  | 1 => degree * degree
  | 2 => degree
  | 3 => functions.sqrt degree
  | _ => functions.cbrt degree

omit [IsStrictOrderedRing K] in
theorem reshape_eq_ladder (hedge : Option Hedge) (degree : K) :
    letI := functions.scalar
    Hedge.reshape hedge degree = functions.ladder degree (Hedge.weakness hedge) := by
  rcases hedge with _ | _ | _ | _ | _ <;> rfl

end Hedges

namespace RaisingRoots

variable {functions : Elementary K} (roots : functions.RaisingRoots)
include roots

theorem reshape_le_reshape (hedge : Option Hedge) {lower upper : K}
    (lower_degree : 0 ≤ lower ∧ lower ≤ 1) (upper_degree : 0 ≤ upper ∧ upper ≤ 1)
    (le : lower ≤ upper) :
    letI := functions.scalar
    Hedge.reshape hedge lower ≤ Hedge.reshape hedge upper := by
  have square_le : lower * lower ≤ upper * upper :=
    mul_le_mul le le lower_degree.1 upper_degree.1
  cases hedge with
  | none => exact le
  | some hedge =>
      cases hedge with
      | slightly => exact roots.cbrt_mono lower upper lower_degree.1 le upper_degree.2
      | somewhat => exact roots.sqrt_mono lower upper lower_degree.1 le upper_degree.2
      | very => exact square_le
      | extremely =>
          exact mul_le_mul square_le le lower_degree.1 (mul_self_nonneg upper)

theorem ladder_monotone {degree : K} (inside : 0 ≤ degree ∧ degree ≤ 1) :
    Monotone (functions.ladder degree) := by
  obtain ⟨nonneg, le_one⟩ := inside
  refine monotone_nat_of_le_succ fun rung => ?_
  match rung with
  | 0 => exact mul_le_of_le_one_right (mul_nonneg nonneg nonneg) le_one
  | 1 => exact mul_le_of_le_one_right nonneg le_one
  | 2 => exact roots.le_sqrt degree nonneg le_one
  | 3 => exact roots.sqrt_le_cbrt degree nonneg le_one
  | _ + 4 => exact le_refl _

theorem reshape_weaker {strong weak : Option Hedge} {degree : K}
    (inside : 0 ≤ degree ∧ degree ≤ 1) (le : Hedge.weakness strong ≤ Hedge.weakness weak) :
    letI := functions.scalar
    Hedge.reshape strong degree ≤ Hedge.reshape weak degree := by
  rw [functions.reshape_eq_ladder, functions.reshape_eq_ladder]
  exact roots.ladder_monotone inside le

/-- In exact arithmetic degrees are ordered if the roots raise them. -/
theorem orderedDegrees :
    letI := functions.scalar
    OrderedDegrees K :=
  letI := functions.scalar
  { degree_le_refl := le_refl
    complement_le_complement := fun le => sub_le_sub_left le 1
    apply_le_apply := functions.apply_le_apply
    reshape_le_reshape := roots.reshape_le_reshape
    reshape_weaker := roots.reshape_weaker }

end RaisingRoots

end Elementary

/-! ## Folds -/

/-- A fold over degrees that are raised is raised. -/
theorem Link.fold_le_fold {α : Type} [Scalar α] [LawfulDegrees α] [OrderedDegrees α] (link : Link)
    {degrees raised : List α} (inside : ∀ degree ∈ degrees, IsDegree degree)
    (raised_inside : ∀ degree ∈ raised, IsDegree degree)
    (le : List.Forall₂ (· ≤ ·) degrees raised) : link.fold degrees ≤ link.fold raised := by
  cases le with
  | nil => exact degree_le_refl 0
  | @cons first firstRaised rest restRaised first_le rest_le =>
      rw [List.forall_mem_cons] at inside raised_inside
      obtain ⟨first_inside, rest_inside⟩ := inside
      obtain ⟨firstRaised_inside, restRaised_inside⟩ := raised_inside
      unfold fold
      -- both accumulators stay degrees, which the drastic links need
      induction rest_le generalizing first firstRaised with
      | nil => exact first_le
      | cons second_le later_le ih =>
          rw [List.forall_mem_cons] at rest_inside restRaised_inside
          exact ih (apply_le_apply link first_inside rest_inside.1 firstRaised_inside
              restRaised_inside.1 first_le second_le)
            (isDegree_apply link first_inside rest_inside.1) rest_inside.2
            (isDegree_apply link firstRaised_inside restRaised_inside.1) restRaised_inside.2

end FuzzyControl
