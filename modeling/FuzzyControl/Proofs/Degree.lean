import FuzzyControl.FuzzySet
import FuzzyControl.RuleBase.Inference
import FuzzyControl.Scalar.Exact
import Mathlib.Tactic.Linarith

/-!
# Degrees stay degrees

Hedges, negations, links and weights lead from degrees to degrees, so the degree of every
condition and the strength of every rule is one.  Only a few laws are used, which hold in
ordered fields.
-/

namespace FuzzyControl

open Scalar

/-- The operations that inference carries out on degrees do not leave `[0, 1]`. -/
class LawfulDegrees (α : Type) [Scalar α] : Prop where
  isDegree_zero : IsDegree (0 : α)
  isDegree_one : IsDegree (1 : α)
  isNumber_of_isDegree : ∀ {value : α}, IsDegree value → isNumber value = true
  isDegree_clampUnit : ∀ {value : α}, isNumber value = true → IsDegree (clampUnit value)
  clampUnit_eq : ∀ {value : α}, IsDegree value → clampUnit value = value
  isDegree_complement : ∀ {value : α}, IsDegree value → IsDegree (1 - value)
  isDegree_sqrt : ∀ {value : α}, IsDegree value → IsDegree (sqrt value)
  isDegree_cbrt : ∀ {value : α}, IsDegree value → IsDegree (cbrt value)
  isDegree_apply : ∀ (link : Link) {first second : α}, IsDegree first → IsDegree second →
    IsDegree (link.apply first second)

open LawfulDegrees

def Memberships.AreDegrees {α : Type} [Scalar α] (memberships : Memberships α) : Prop :=
  ∀ row ∈ memberships, ∀ degree ∈ row, IsDegree degree

/-! ## Ordered fields -/

namespace Elementary

variable {K : Type} [Field K] [LinearOrder K] [IsStrictOrderedRing K] (functions : Elementary K)

theorem isDegree_link (link : Link) {first second : K} (first_degree : 0 ≤ first ∧ first ≤ 1)
    (second_degree : 0 ≤ second ∧ second ≤ 1) :
    letI := functions.scalar
    IsDegree (link.apply first second) := by
  obtain ⟨first_nonneg, first_le⟩ := first_degree
  obtain ⟨second_nonneg, second_le⟩ := second_degree
  have product_nonneg : 0 ≤ first * second := mul_nonneg first_nonneg second_nonneg
  cases link with
  | minimum =>
      simp only [Link.apply, functions.smaller_eq_min]
      exact ⟨le_min first_nonneg second_nonneg, (min_le_left _ _).trans first_le⟩
  | product => exact ⟨product_nonneg, mul_le_one₀ first_le second_nonneg second_le⟩
  | boundedProduct =>
      simp only [Link.apply, functions.larger_eq_max]
      exact ⟨le_max_left _ _, max_le zero_le_one (by linarith)⟩
  | drasticProduct =>
      simp only [Link.apply]
      split
      · exact ⟨first_nonneg, first_le⟩
      · split
        · exact ⟨second_nonneg, second_le⟩
        · exact ⟨le_refl _, zero_le_one⟩
  | maximum =>
      simp only [Link.apply, functions.larger_eq_max]
      exact ⟨first_nonneg.trans (le_max_left _ _), max_le first_le second_le⟩
  | probabilisticSum =>
      -- the complement of the sum is the product of the complements
      have complement_nonneg := mul_nonneg (sub_nonneg.2 first_le) (sub_nonneg.2 second_le)
      have product_le : first * second ≤ first := mul_le_of_le_one_right first_nonneg second_le
      simp only [Link.apply]
      exact ⟨by linarith, by linarith⟩
  | boundedSum =>
      simp only [Link.apply, functions.smaller_eq_min]
      exact ⟨le_min zero_le_one (add_nonneg first_nonneg second_nonneg), min_le_left _ _⟩
  | drasticSum =>
      simp only [Link.apply]
      split
      · exact ⟨first_nonneg, first_le⟩
      · split
        · exact ⟨second_nonneg, second_le⟩
        · exact ⟨zero_le_one, le_refl _⟩

theorem complement_mem {degree : K} (inside : 0 ≤ degree ∧ degree ≤ 1) :
    0 ≤ 1 - degree ∧ 1 - degree ≤ 1 :=
  ⟨sub_nonneg.2 inside.2, sub_le_self 1 inside.1⟩

theorem isDegree_clampUnit (value : K) :
    letI := functions.scalar
    IsDegree (clampUnit value) := by
  simp only [clampUnit]
  split
  · exact ⟨le_refl _, zero_le_one⟩
  · rename_i not_below
    split
    · exact ⟨zero_le_one, le_refl _⟩
    · rename_i not_above
      exact ⟨not_lt.1 not_below, not_lt.1 not_above⟩

/-- Every degree of a set is clamped, so it does not matter what the functions return. -/
theorem isDegree_degree (set : FuzzySet K) (x : K) :
    letI := functions.scalar
    IsDegree (set.degree x) := by
  let := functions.scalar
  have clamped (value : K) : IsDegree (toDegree value) := by
    rw [toDegree, isNumber, beq_self_eq_true, if_pos rfl]
    exact functions.isDegree_clampUnit value
  cases set <;> exact clamped _

omit [IsStrictOrderedRing K] in
theorem clampUnit_eq {value : K} (degree : 0 ≤ value ∧ value ≤ 1) :
    letI := functions.scalar
    clampUnit value = value := by
  simp only [clampUnit, if_neg (not_lt.2 degree.1), if_neg (not_lt.2 degree.2)]

omit [IsStrictOrderedRing K] in
theorem toDegree_eq {value : K} (degree : 0 ≤ value ∧ value ≤ 1) :
    letI := functions.scalar
    toDegree value = value := by
  let := functions.scalar
  rw [toDegree, isNumber, beq_self_eq_true, if_pos rfl, functions.clampUnit_eq degree]

/-- In exact arithmetic the operations on degrees are lawful if the roots of degrees are degrees. -/
theorem lawfulDegrees
    (sqrt_mem : ∀ x, 0 ≤ x → x ≤ 1 → 0 ≤ functions.sqrt x ∧ functions.sqrt x ≤ 1)
    (cbrt_mem : ∀ x, 0 ≤ x → x ≤ 1 → 0 ≤ functions.cbrt x ∧ functions.cbrt x ≤ 1) :
    letI := functions.scalar
    LawfulDegrees K :=
  letI := functions.scalar
  { isDegree_zero := ⟨le_refl _, zero_le_one⟩
    isDegree_one := ⟨zero_le_one, le_refl _⟩
    isNumber_of_isDegree := fun _ => beq_self_eq_true _
    isDegree_clampUnit := fun {value} _ => functions.isDegree_clampUnit value
    clampUnit_eq := functions.clampUnit_eq
    isDegree_complement := complement_mem
    isDegree_sqrt := fun {value} degree => sqrt_mem value degree.1 degree.2
    isDegree_cbrt := fun {value} degree => cbrt_mem value degree.1 degree.2
    isDegree_apply := functions.isDegree_link }

theorem Bounded.lawfulDegrees {functions : Elementary K} (bounded : functions.Bounded) :
    letI := functions.scalar
    LawfulDegrees K :=
  functions.lawfulDegrees bounded.sqrt_mem bounded.cbrt_mem

/-- Roots that raise degrees to at most one keep them in `[0, 1]`. -/
theorem RaisingRoots.lawfulDegrees {functions : Elementary K} (roots : functions.RaisingRoots) :
    letI := functions.scalar
    LawfulDegrees K := by
  refine functions.lawfulDegrees (fun x nonneg le_one => ?_) (fun x nonneg le_one => ?_)
  · have raised := roots.le_sqrt x nonneg le_one
    have bounded := roots.sqrt_le_cbrt x nonneg le_one
    exact ⟨nonneg.trans raised, bounded.trans (roots.cbrt_le_one x nonneg le_one)⟩
  · have raised := (roots.le_sqrt x nonneg le_one).trans (roots.sqrt_le_cbrt x nonneg le_one)
    exact ⟨nonneg.trans raised, roots.cbrt_le_one x nonneg le_one⟩

end Elementary

/-! ## Values -/

section Values

variable {α : Type} [Scalar α] [LawfulDegrees α]

theorem isDegree_toDegree (value : α) : IsDegree (toDegree value) := by
  unfold toDegree
  split
  · rename_i number
    exact isDegree_clampUnit number
  · exact isDegree_zero

theorem toDegree_eq {value : α} (degree : IsDegree value) : toDegree value = value := by
  rw [toDegree, isNumber_of_isDegree degree, if_pos rfl, clampUnit_eq degree]

theorem isDegree_mul {first second : α} (first_degree : IsDegree first)
    (second_degree : IsDegree second) : IsDegree (first * second) :=
  isDegree_apply .product first_degree second_degree

theorem isDegree_complementIf (negated : Bool) {degree : α} (inside : IsDegree degree) :
    IsDegree (complementIf negated degree) := by
  cases negated with
  | false => exact inside
  | true => exact isDegree_complement inside

theorem Link.isDegree_fold (link : Link) {degrees : List α}
    (inside : ∀ degree ∈ degrees, IsDegree degree) : IsDegree (link.fold degrees) := by
  cases degrees with
  | nil => exact isDegree_zero
  | cons first rest =>
      have first_inside := inside first List.mem_cons_self
      have rest_inside := fun degree member => inside degree (List.mem_cons_of_mem first member)
      clear inside
      unfold fold
      induction rest generalizing first with
      | nil => exact first_inside
      | cons second rest ih =>
          exact ih _ (isDegree_apply link first_inside (rest_inside second List.mem_cons_self))
            fun degree member => rest_inside degree (List.mem_cons_of_mem second member)

theorem Hedge.isDegree_apply (hedge : Hedge) {degree : α} (inside : IsDegree degree) :
    IsDegree (hedge.apply degree) := by
  cases hedge with
  | slightly => exact isDegree_cbrt inside
  | somewhat => exact isDegree_sqrt inside
  | very => exact isDegree_mul inside inside
  | extremely => exact isDegree_mul (isDegree_mul inside inside) inside

/-- Whatever a fuzzy set is made of, its values are degrees. -/
theorem FuzzySet.isDegree_degree (set : FuzzySet α) (x : α) : IsDegree (set.degree x) := by
  cases set <;> exact isDegree_toDegree _

theorem Memberships.AreDegrees.isDegree_getD {memberships : Memberships α}
    (inside : memberships.AreDegrees) (input term : Nat) :
    IsDegree ((memberships.degree? input term).getD 0) := by
  cases found : memberships.degree? input term with
  | none => exact isDegree_zero
  | some degree =>
      obtain ⟨row, here, there⟩ := Option.bind_eq_some_iff.1 found
      exact inside row (List.mem_of_getElem? here) degree (List.mem_of_getElem? there)

theorem Proposition.isDegree_degree {memberships : Memberships α}
    (inside : memberships.AreDegrees) (proposition : Proposition) :
    IsDegree (proposition.degree memberships) := by
  have plain := inside.isDegree_getD proposition.input proposition.term
  refine isDegree_complementIf _ ?_
  split
  · exact Hedge.isDegree_apply _ plain
  · exact plain

end Values

/-! ## Conditions and rules -/

variable {α ω : Type} [Scalar α] {memberships : Memberships α}

namespace Condition

mutual

/-- Any tree of conditions has a degree in `[0, 1]`. -/
theorem isDegree_degree [LawfulDegrees α] (norms : Norms) (inside : memberships.AreDegrees)
    (condition : Condition) : IsDegree (condition.degree norms memberships) := by
  match condition with
  | leaf proposition => exact proposition.isDegree_degree inside
  | group connective negated children =>
      exact isDegree_complementIf _ (Link.isDegree_fold _ (isDegree_degrees norms inside children))

theorem isDegree_degrees [LawfulDegrees α] (norms : Norms) (inside : memberships.AreDegrees)
    (children : List Condition) :
    ∀ degree ∈ degrees norms memberships children, IsDegree degree := by
  match children with
  | [] => exact fun _ member => nomatch member
  | child :: rest =>
      intro degree member
      rcases List.mem_cons.1 member with rfl | later
      · exact isDegree_degree norms inside child
      · exact isDegree_degrees norms inside rest degree later

end

end Condition

namespace RuleBase

variable [LawfulDegrees α]

theorem memberships_areDegrees (self : RuleBase α ω) (values : KeyMap α) :
    (self.memberships values).AreDegrees := by
  intro row row_member degree member
  obtain ⟨entry, _, rfl⟩ := List.mem_map.1 row_member
  obtain ⟨term, _, rfl⟩ := List.mem_map.1 member
  exact term.set.isDegree_degree _

/-- A rule whose weight is a degree fires with a degree. -/
theorem isDegree_strength (self : RuleBase α ω) (inside : memberships.AreDegrees) {rule : Rule α}
    (weighted : IsDegree rule.weight) : IsDegree (self.strength memberships rule) :=
  isDegree_mul (rule.condition.isDegree_degree self.norms inside) weighted

theorem isDegree_strengths (self : RuleBase α ω) (values : KeyMap α) {rules : List (Rule α)}
    (weighted : ∀ rule ∈ rules, IsDegree rule.weight) :
    ∀ rule ∈ rules, IsDegree (self.strength (self.memberships values) rule) := fun rule member =>
  self.isDegree_strength (self.memberships_areDegrees values) (weighted rule member)

end RuleBase

end FuzzyControl
