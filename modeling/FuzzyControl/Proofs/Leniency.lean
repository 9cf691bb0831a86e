import Mathlib.Algebra.Order.Field.Basic
import Mathlib.Data.List.Forall2
import FuzzyControl.Proofs.Invariant
import FuzzyControl.Proofs.Monotone

/-!
# Lenient connectives

The meanings of `and` are ordered from the drastic product to the minimum, and those of
`or` from the maximum to the drastic sum.  A condition without negated groups loses nothing
when a connective gets a more lenient meaning: every link keeps the order of degrees, and the
more lenient one gives at least as much.
-/

namespace FuzzyControl

open Scalar

/-! ## The order of meanings -/

namespace Conjunction

/-- How little a meaning of `and` takes away. -/
def leniency : Conjunction → Nat
  | .drasticProduct => 0
  | .boundedProduct => 1
  | .product => 2
  | .minimum => 3

instance : LE Conjunction :=
  ⟨fun first second => first.leniency ≤ second.leniency⟩

instance (first second : Conjunction) : Decidable (first ≤ second) :=
  inferInstanceAs (Decidable (first.leniency ≤ second.leniency))

end Conjunction

namespace Disjunction

/-- How much a meaning of `or` adds. -/
def leniency : Disjunction → Nat
  | .maximum => 0
  | .probabilisticSum => 1
  | .boundedSum => 2
  | .drasticSum => 3

instance : LE Disjunction :=
  ⟨fun first second => first.leniency ≤ second.leniency⟩

instance (first second : Disjunction) : Decidable (first ≤ second) :=
  inferInstanceAs (Decidable (first.leniency ≤ second.leniency))

end Disjunction

instance : LE Norms :=
  ⟨fun first second => first.conjunction ≤ second.conjunction ∧
    first.disjunction ≤ second.disjunction⟩

def Conjunction.ofLeniency : Nat → Conjunction
  | 0 => .drasticProduct
  | 1 => .boundedProduct
  | 2 => .product
  | _ => .minimum

theorem Conjunction.ofLeniency_leniency (conjunction : Conjunction) :
    ofLeniency conjunction.leniency = conjunction := by
  cases conjunction <;> rfl

/-- Duality reverses the order of meanings. -/
theorem Conjunction.dual_le_dual_iff {first second : Conjunction} :
    first.dual ≤ second.dual ↔ second ≤ first := by
  cases first <;> cases second <;> decide

theorem Disjunction.exists_dual (disjunction : Disjunction) :
    ∃ conjunction : Conjunction, conjunction.dual = disjunction := by
  cases disjunction with
  | maximum => exact ⟨.minimum, rfl⟩
  | probabilisticSum => exact ⟨.product, rfl⟩
  | boundedSum => exact ⟨.boundedProduct, rfl⟩
  | drasticSum => exact ⟨.drasticProduct, rfl⟩

structure Raised {α : Type} [Scalar α] (lower upper : α) : Prop where
  lower_inside : IsDegree lower
  upper_inside : IsDegree upper
  le : lower ≤ upper

namespace Elementary

variable {K : Type} [Field K] [LinearOrder K] [IsStrictOrderedRing K] (functions : Elementary K)

/-! ## Links -/

/-- Degrees joined by more and more lenient conjunctions ascend. -/
theorem conjunction_monotone {left right : K} (left_degree : 0 ≤ left ∧ left ≤ 1)
    (right_degree : 0 ≤ right ∧ right ≤ 1) :
    letI := functions.scalar
    Monotone fun rung => (Conjunction.ofLeniency rung).link.apply left right := by
  let := functions.scalar
  obtain ⟨left_nonneg, left_le⟩ := left_degree
  obtain ⟨right_nonneg, right_le⟩ := right_degree
  refine monotone_nat_of_le_succ fun rung => ?_
  match rung with
  | 0 =>
      simp only [Conjunction.ofLeniency, Conjunction.link, Link.apply, functions.larger_eq_max,
        beq_iff_eq]
      split
      · rename_i right_one
        rw [right_one, add_sub_cancel_right]
        exact le_max_right _ _
      · split
        · rename_i left_one
          rw [left_one, add_sub_cancel_left]
          exact le_max_right _ _
        · exact le_max_left _ _
  | 1 =>
      simp only [Conjunction.ofLeniency, Conjunction.link, Link.apply, functions.larger_eq_max]
      have complements_nonneg := mul_nonneg (sub_nonneg.2 left_le) (sub_nonneg.2 right_le)
      exact max_le (mul_nonneg left_nonneg right_nonneg) (by linarith)
  | 2 =>
      simp only [Conjunction.ofLeniency, Conjunction.link, Link.apply, functions.smaller_eq_min]
      exact le_min (mul_le_of_le_one_right left_nonneg right_le)
        (mul_le_of_le_one_left right_nonneg left_le)
  | _ + 3 => exact le_refl _

theorem conjunction_le_of_lenient {first second : Conjunction} (lenient : first ≤ second)
    {left right : K} (left_degree : 0 ≤ left ∧ left ≤ 1) (right_degree : 0 ≤ right ∧ right ≤ 1) :
    letI := functions.scalar
    first.link.apply left right ≤ second.link.apply left right := by
  have ascends := functions.conjunction_monotone left_degree right_degree lenient
  simpa only [Conjunction.ofLeniency_leniency] using ascends

/-- A lenient disjunction is dual to a conjunction that is not. -/
theorem disjunction_le_of_lenient {first second : Disjunction} (lenient : first ≤ second)
    {left right : K} (left_degree : 0 ≤ left ∧ left ≤ 1) (right_degree : 0 ≤ right ∧ right ≤ 1) :
    letI := functions.scalar
    first.link.apply left right ≤ second.link.apply left right := by
  let := functions.scalar
  obtain ⟨strict, rfl⟩ := first.exists_dual
  obtain ⟨stricter, rfl⟩ := second.exists_dual
  have dual_le := functions.conjunction_le_of_lenient (Conjunction.dual_le_dual_iff.1 lenient)
    (complement_mem left_degree) (complement_mem right_degree)
  rw [strict.link_dual, stricter.link_dual, functions.dual_apply, functions.dual_apply]
  exact sub_le_sub_left dual_le 1

theorem link_le_of_lenient {norms lenient : Norms} (le : norms ≤ lenient)
    (connective : Connective) {left right : K} (left_degree : 0 ≤ left ∧ left ≤ 1)
    (right_degree : 0 ≤ right ∧ right ≤ 1) :
    letI := functions.scalar
    (norms.link connective).apply left right ≤ (lenient.link connective).apply left right := by
  cases connective with
  | and => exact functions.conjunction_le_of_lenient le.1 left_degree right_degree
  | or => exact functions.disjunction_le_of_lenient le.2 left_degree right_degree

/-- A link keeps the order of degrees. -/
theorem raised_link (link : Link) {left right leftRaised rightRaised : K} :
    letI := functions.scalar
    Raised left leftRaised → Raised right rightRaised →
      Raised (link.apply left right) (link.apply leftRaised rightRaised) := by
  let := functions.scalar
  rintro ⟨left_inside, leftRaised_inside, left_le⟩ ⟨right_inside, rightRaised_inside, right_le⟩
  exact ⟨functions.isDegree_link _ left_inside right_inside,
    functions.isDegree_link _ leftRaised_inside rightRaised_inside,
    functions.apply_le_apply _ left_inside right_inside leftRaised_inside rightRaised_inside
      left_le right_le⟩

/-- A more lenient link of raised degrees gives a raised degree. -/
theorem raised_apply {norms lenient : Norms} (le : norms ≤ lenient) (connective : Connective)
    {left right leftRaised rightRaised : K} :
    letI := functions.scalar
    Raised left leftRaised → Raised right rightRaised →
      Raised ((norms.link connective).apply left right)
        ((lenient.link connective).apply leftRaised rightRaised) := by
  let := functions.scalar
  intro left_raised right_raised
  -- first the link keeps the order of its arguments, then the more lenient one takes over
  have raised := functions.raised_link (norms.link connective) left_raised right_raised
  exact ⟨raised.lower_inside,
    functions.isDegree_link _ left_raised.upper_inside right_raised.upper_inside,
    raised.le.trans (functions.link_le_of_lenient le connective left_raised.upper_inside
      right_raised.upper_inside)⟩

/-- Links that raise raised degrees do so along a fold. -/
theorem raised_fold_of_apply {link lenient : Link} {degrees raised : List K} :
    letI := functions.scalar
    (∀ {left leftRaised right rightRaised : K}, Raised left leftRaised → Raised right rightRaised →
      Raised (link.apply left right) (lenient.apply leftRaised rightRaised)) →
    List.Forall₂ Raised degrees raised → Raised (link.fold degrees) (lenient.fold raised) := by
  let := functions.scalar
  intro apply_raised each
  cases each with
  | nil => exact ⟨⟨le_refl 0, zero_le_one⟩, ⟨le_refl 0, zero_le_one⟩, le_refl 0⟩
  | cons head tail =>
      exact List.rel_foldl (R := Raised) (fun _ _ sofar _ _ next => apply_raised sofar next)
        head tail

theorem raised_fold {norms lenient : Norms} (le : norms ≤ lenient) (connective : Connective)
    {degrees raised : List K} :
    letI := functions.scalar
    List.Forall₂ Raised degrees raised →
      Raised ((norms.link connective).fold degrees) ((lenient.link connective).fold raised) :=
  functions.raised_fold_of_apply (functions.raised_apply le connective)

/-- The link of degrees is one, so it does not matter that a composite clamps it. -/
theorem degree_composite (link : Link) (children : List (FuzzySet K)) (x : K) :
    letI := functions.scalar
    (FuzzySet.composite link children).degree x =
      link.fold (children.map (FuzzySet.degree x)) := by
  let := functions.scalar
  have inside : ∀ degree ∈ children.map (FuzzySet.degree x), Raised degree degree := by
    refine List.forall_mem_map.2 fun child _ => ?_
    have degree := functions.isDegree_degree child x
    exact ⟨degree, degree, le_refl _⟩
  have folded := functions.raised_fold_of_apply (functions.raised_link link)
    (List.forall₂_same.2 inside)
  rw [FuzzySet.degree, FuzzySet.degrees_eq_map, functions.toDegree_eq folded.lower_inside]

end Elementary

/-! ## Conditions -/

namespace Condition

variable {K : Type} [Field K] [LinearOrder K] {norms lenient : Norms}

mutual

/-- A condition without negated groups is raised if its connectives get more lenient. -/
theorem raised_degree [IsStrictOrderedRing K] (functions : Elementary K) (le : norms ≤ lenient)
    (memberships : Memberships K) (condition : Condition)
    (positive : condition.isPositive = true) :
    letI := functions.scalar
    (∀ proposition ∈ condition.propositions, IsDegree (proposition.degree memberships)) →
      Raised (condition.degree norms memberships) (condition.degree lenient memberships) := by
  let := functions.scalar
  intro inside
  match condition with
  | leaf proposition =>
      have degree := inside proposition (List.mem_singleton.2 rfl)
      exact ⟨degree, degree, le_refl _⟩
  | group connective negated children =>
      rw [isPositive, Bool.and_eq_true, Bool.not_eq_true'] at positive
      obtain ⟨rfl, children_positive⟩ := positive
      exact functions.raised_fold le connective
        (raised_degrees functions le memberships children children_positive inside)

theorem raised_degrees [IsStrictOrderedRing K] (functions : Elementary K) (le : norms ≤ lenient)
    (memberships : Memberships K) (children : List Condition)
    (positive : allPositive children = true) :
    letI := functions.scalar
    (∀ proposition ∈ propositionsOf children, IsDegree (proposition.degree memberships)) →
      List.Forall₂ Raised (degrees norms memberships children)
        (degrees lenient memberships children) := by
  let := functions.scalar
  intro inside
  match children with
  | [] => exact .nil
  | child :: rest =>
      rw [allPositive, Bool.and_eq_true] at positive
      rw [propositionsOf, List.forall_mem_append] at inside
      exact .cons (raised_degree functions le memberships child positive.1 inside.1)
        (raised_degrees functions le memberships rest positive.2 inside.2)

end

end Condition

theorem Norms.le_of_mem_choices {α ω : Type} [Scalar α] {self lenient : RuleBase α ω}
    {conjunction : Conjunction} {disjunction : Disjunction}
    (conjunction_le : self.norms.conjunction ≤ conjunction)
    (disjunction_le : self.norms.disjunction ≤ disjunction)
    (chosen : lenient ∈ [self.setConjunction conjunction, self.setDisjunction disjunction,
      (self.setConjunction conjunction).setDisjunction disjunction]) :
    self.norms ≤ lenient.norms := by
  simp only [List.mem_cons, List.not_mem_nil, or_false] at chosen
  rcases chosen with rfl | rfl | rfl
  · exact ⟨conjunction_le, Nat.le_refl _⟩
  · exact ⟨Nat.le_refl _, disjunction_le⟩
  · exact ⟨conjunction_le, disjunction_le⟩

/--
In exact arithmetic, choosing a more lenient meaning of one connective or of both lowers
neither the degree of a condition without negated groups, as long as its leaves have degrees
in `[0, 1]`, nor the strength of a rule with such a condition.  Every rule that is read from a
text is of this kind.
-/
theorem degree_le_degree_of_lenient {K : Type} [Field K] [LinearOrder K] [IsStrictOrderedRing K]
    (functions : Elementary K) :
    letI := functions.scalar
    ∀ {ω : Type} (self : RuleBase K ω),
      (∀ (conjunction : Conjunction) (disjunction : Disjunction),
        self.norms.conjunction ≤ conjunction → self.norms.disjunction ≤ disjunction →
        ∀ lenient ∈ [self.setConjunction conjunction, self.setDisjunction disjunction,
            (self.setConjunction conjunction).setDisjunction disjunction],
          ∀ (memberships : Memberships K) (condition : Condition), condition.isPositive = true →
            (∀ proposition ∈ condition.propositions,
              IsDegree (proposition.degree memberships)) →
              condition.degree self.norms memberships ≤
                condition.degree lenient.norms memberships ∧
              ∀ rule : Rule K, rule.Built → rule.condition = condition →
                self.strength memberships rule ≤ lenient.strength memberships rule) ∧
      (∀ [OutputVariable ω] (text : String) (rule : Rule K), self.parse text = .ok rule →
        rule.Built ∧ rule.condition.isPositive = true) := by
  let := functions.scalar
  intro ω self
  refine ⟨?_, fun text rule read => ?_⟩
  · intro conjunction disjunction conjunction_le disjunction_le lenient chosen memberships
      condition positive inside
    have norms_le := Norms.le_of_mem_choices conjunction_le disjunction_le chosen
    have raised := condition.raised_degree functions norms_le memberships positive inside
    refine ⟨raised.le, ?_⟩
    rintro rule built rfl
    have weight_inside := built.isDegree ⟨zero_le_one, le_refl (1 : K)⟩
    exact mul_le_mul_of_nonneg_right raised.le weight_inside.1
  · obtain ⟨rule_eq, spelled⟩ := RuleBase.spells_of_parse read
    exact ⟨rule_eq ▸ .ofStatement rule.toStatement, spelled.isPositive⟩

def strictKitchen : RuleBase ℚ Signature :=
  { drasticKitchen with norms := ⟨.drasticProduct, .maximum⟩ }

def pleasant : Condition :=
  .group .and false [.leaf ⟨0, 0, false, none⟩,
    .group .or false [.leaf ⟨0, 1, true, some .very⟩, .leaf ⟨0, 0, false, none⟩]]

theorem pleasant_rises :
    pleasant.degree strictKitchen.norms [[1 / 2, 2 / 3, (0 : ℚ)]] = 0 ∧
    pleasant.degree (strictKitchen.setConjunction .product).norms [[1 / 2, 2 / 3, (0 : ℚ)]] =
      5 / 18 ∧
    0 ≤ pleasant.degree (strictKitchen.setConjunction .product).norms [[1 / 2, 2 / 3, (0 : ℚ)]] ∧
    (∃ rule, strictKitchen.parse
        "if food is good and (food is not very warm or food is good) then tip is low" = .ok rule ∧
      rule.condition.isPositive = true) ∧
    ∃ rule, (Rule.ofStatement ⟨pleasant, ⟨0, 0, false⟩⟩).withWeight (1 / 2) = .ok rule ∧
      strictKitchen.strength [[1 / 2, 2 / 3, 0]] rule ≤
        ((strictKitchen.setConjunction .product).setDisjunction .boundedSum).strength
          [[1 / 2, 2 / 3, 0]] rule := by
  have degree_eq : pleasant.degree strictKitchen.norms [[1 / 2, 2 / 3, (0 : ℚ)]] = 0 := by
    decide +kernel
  have inside : ∀ proposition ∈ pleasant.propositions,
      IsDegree (proposition.degree [[1 / 2, 2 / 3, (0 : ℚ)]]) := by
    simp only [pleasant, Condition.propositions, Condition.propositionsOf, List.append_nil,
      List.singleton_append, List.forall_mem_cons]
    exact ⟨by decide +kernel, by decide +kernel, by decide +kernel, List.forall_mem_nil _⟩
  have weighted : (Rule.ofStatement ⟨pleasant, ⟨0, 0, false⟩⟩).withWeight (1 / 2 : ℚ) =
      .ok ⟨⟨pleasant, ⟨0, 0, false⟩⟩, 1 / 2⟩ := if_pos (by decide +kernel)
  have succeeds : (strictKitchen.parse
      "if food is good and (food is not very warm or food is good) then tip is low").isOk =
        true := by
    decide +kernel
  obtain ⟨rule, read⟩ := Outcome.exists_of_isOk succeeds
  obtain ⟨rises, texts⟩ := degree_le_degree_of_lenient Elementary.rational strictKitchen
  have raised := rises .product .boundedSum (by decide) (by decide)
  have one_choice := raised _ List.mem_cons_self _ pleasant rfl inside
  have both_choices := raised _
    (List.mem_cons_of_mem _ (List.mem_cons_of_mem _ List.mem_cons_self)) _ pleasant rfl inside
  exact ⟨degree_eq, by decide +kernel, degree_eq ▸ one_choice.1,
    ⟨rule, read, (texts _ _ read).2⟩, _, weighted,
    both_choices.2 _ (.withWeight (.ofStatement _) weighted) rfl⟩

end FuzzyControl
