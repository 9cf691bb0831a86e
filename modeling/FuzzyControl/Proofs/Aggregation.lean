import Mathlib.Algebra.Order.Field.Basic
import Mathlib.Data.List.Forall2
import FuzzyControl.Proofs.Arithmetic
import FuzzyControl.Proofs.Calculation
import FuzzyControl.Proofs.Leniency
import FuzzyControl.Proofs.Strength

/-!
# Aggregated sets and strengths

An implied set is below the strength of its rule and below the concluded set.  The set that is
aggregated for an output is above the implied sets of the rules on that output, and it does not
shrink when rules fire more strongly.
-/

namespace FuzzyControl

open Scalar

/-- Lists of related entries stay related beside the same items. -/
theorem forall₂_zip_left {β γ : Type} {related : γ → γ → Prop} (items : List β)
    {first second : List γ} (each : List.Forall₂ related first second) :
    List.Forall₂ (fun entry other => entry.1 = other.1 ∧ related entry.2 other.2)
      (items.zip first) (items.zip second) := by
  induction each generalizing items with
  | nil =>
      rw [List.zip_nil_right]
      exact .nil
  | cons head tail ih =>
      cases items with
      | nil => exact .nil
      | cons item rest => exact .cons ⟨rfl, head⟩ (ih rest)

namespace Elementary

variable {K : Type} [Field K] [LinearOrder K] [IsStrictOrderedRing K] (functions : Elementary K)

/-! ## Links -/

theorem clampUnit_eq_max (value : K) :
    letI := functions.scalar
    clampUnit value = max 0 (min value 1) := by
  let := functions.scalar
  unfold clampUnit
  split
  · rename_i below
    rw [max_eq_left ((min_le_left value 1).trans below.le)]
  · rename_i not_below
    split
    · rename_i above
      rw [min_eq_right above.le, max_eq_right zero_le_one]
    · rename_i not_above
      rw [min_eq_left (not_lt.1 not_above), max_eq_right (not_lt.1 not_below)]

theorem raised_clampUnit {value greater : K} (le : value ≤ greater) :
    letI := functions.scalar
    Raised (clampUnit value) (clampUnit greater) := by
  let := functions.scalar
  refine ⟨functions.isDegree_clampUnit value, functions.isDegree_clampUnit greater, ?_⟩
  rw [functions.clampUnit_eq_max, functions.clampUnit_eq_max]
  exact max_le_max_left 0 (min_le_min_right 1 le)

/-- Implication takes away from both the strength and the concluded degree. -/
theorem implication_le (implication : Implication) {strength degree : K}
    (strength_inside : 0 ≤ strength ∧ strength ≤ 1) (inside : 0 ≤ degree ∧ degree ≤ 1) :
    letI := functions.scalar
    implication.link.apply strength degree ≤ strength ∧
      implication.link.apply strength degree ≤ degree := by
  let := functions.scalar
  cases implication with
  | minimum =>
      simp only [Implication.link, Link.apply, functions.smaller_eq_min]
      exact ⟨min_le_left _ _, min_le_right _ _⟩
  | product =>
      exact ⟨mul_le_of_le_one_right strength_inside.1 inside.2,
        mul_le_of_le_one_left inside.1 strength_inside.2⟩

/-- Folding by the maximum gives the least of all aggregations. -/
theorem fold_maximum_le_fold (aggregation : Aggregation) {degrees : List K}
    (inside : ∀ degree ∈ degrees, 0 ≤ degree ∧ degree ≤ 1) :
    letI := functions.scalar
    Link.maximum.fold degrees ≤ aggregation.link.fold degrees := by
  let := functions.scalar
  have unchanged : List.Forall₂ Raised degrees degrees := List.forall₂_same.2
    fun degree member => ⟨inside degree member, inside degree member, le_refl degree⟩
  cases aggregation with
  | maximum => exact le_refl _
  | sum =>
      have lenient : Norms.mk .minimum .maximum ≤ ⟨.minimum, .probabilisticSum⟩ :=
        ⟨Nat.le_refl _, Nat.zero_le _⟩
      exact (functions.raised_fold lenient .or unchanged).le

theorem le_fold_of_mem (aggregation : Aggregation) {degrees : List K}
    (inside : ∀ degree ∈ degrees, 0 ≤ degree ∧ degree ≤ 1) {degree : K}
    (member : degree ∈ degrees) :
    letI := functions.scalar
    degree ≤ aggregation.link.fold degrees := by
  let := functions.scalar
  have nonneg : ∀ degree ∈ degrees, 0 ≤ degree := fun degree member => (inside degree member).1
  have bounds := (functions.fold_maximum_le_iff nonneg).1 (le_refl (Link.maximum.fold degrees))
  exact (bounds.2 degree member).trans (functions.fold_maximum_le_fold aggregation inside)

end Elementary

namespace Mamdani

/-! ## Aggregated sets -/

section Sets

variable {α : Type} [Scalar α]

def withAggregation (self : Mamdani α) (aggregation : Aggregation) : Mamdani α :=
  { self with aggregation := aggregation }

/-- The set of an output that is aggregated from rules that fire with the strengths. -/
def aggregated? (self : Mamdani α) (strengths : List α) (key : Nat) : Option (FuzzySet α) :=
  (self.aggregate (self.implicate strengths)).get? key

theorem getElem?_implicate {self : Mamdani α} {strengths : List α} {index : Nat} {rule : Rule α}
    {strength : α} (rule_at : self.rules[index]? = some rule)
    (strength_at : strengths[index]? = some strength) :
    (self.implicate strengths)[index]? = some (self.implied rule strength) := by
  have entry_at : (self.rules.zip strengths)[index]? = some (rule, strength) :=
    List.getElem?_zip_eq_some.2 ⟨rule_at, strength_at⟩
  rw [implicate, List.getElem?_map, entry_at, Option.map_some]

theorem aggregated?_eq_some_iff {self : Mamdani α} {strengths : List α} {key : Nat}
    {set : FuzzySet α} :
    self.aggregated? strengths key = some set ↔ key < self.outputs.length ∧
      .composite self.aggregation.link ((self.concludingOn key strengths).map fun entry =>
        self.implied entry.1 entry.2) = set := by
  have aggregated_eq : self.aggregateOn (self.implicate strengths) key =
      .composite self.aggregation.link ((self.concludingOn key strengths).map fun entry =>
        self.implied entry.1 entry.2) := by
    rw [aggregateOn, implicate, RuleBase.concludingOn_zip, List.map_map]
    rfl
  rw [aggregated?, aggregate, KeyMap.get?_ofPositions, List.getElem?_map, ← aggregated_eq]
  by_cases less : key < self.outputs.length
  · rw [List.getElem?_range less, Option.map_some, Option.some_inj, and_iff_right less]
  · rw [List.getElem?_eq_none (by rw [List.length_range]; exact Nat.le_of_not_lt less)]
    simp [less]

theorem exists_aggregated {self : Mamdani α} {key : Nat} (less : key < self.outputs.length)
    (strengths : List α) : ∃ set, self.aggregated? strengths key = some set :=
  ⟨_, aggregated?_eq_some_iff.2 ⟨less, rfl⟩⟩

end Sets

/-! ## Degrees -/

section Degrees

variable {K : Type} [Field K] [LinearOrder K] [IsStrictOrderedRing K] (functions : Elementary K)

theorem degree_implied_clamped (x : K) :
    letI := functions.scalar
    ∀ (self : Mamdani K) (rule : Rule K) (strength : K), (self.implied rule strength).degree x =
      self.implication.link.apply (clampUnit strength)
        ((self.concludedSet rule.conclusion).degree x) := by
  let := functions.scalar
  intro self rule strength
  have clamped : (FuzzySet.constant (clampUnit strength)).degree x = clampUnit strength :=
    functions.toDegree_eq (functions.isDegree_clampUnit strength)
  rw [implied, functions.degree_composite]
  exact congrArg (self.implication.link.apply · _) clamped

theorem implied_le (x : K) :
    letI := functions.scalar
    ∀ (self : Mamdani K) (rule : Rule K) (strength : K),
      (self.implied rule strength).degree x ≤ clampUnit strength ∧
        (self.implied rule strength).degree x ≤
          (self.concludedSet rule.conclusion).degree x := by
  let := functions.scalar
  intro self rule strength
  rw [degree_implied_clamped functions]
  exact functions.implication_le _ (functions.isDegree_clampUnit strength)
    (functions.isDegree_degree _ x)

theorem raised_implied (x : K) :
    letI := functions.scalar
    ∀ (self : Mamdani K) (rule : Rule K) {strength greater : K}, strength ≤ greater →
      Raised ((self.implied rule strength).degree x) ((self.implied rule greater).degree x) := by
  let := functions.scalar
  intro self rule strength greater le
  have concluded := functions.isDegree_degree (self.concludedSet rule.conclusion) x
  rw [degree_implied_clamped functions, degree_implied_clamped functions]
  exact functions.raised_link _ (functions.raised_clampUnit le) ⟨concluded, concluded, le_refl _⟩

theorem degree_aggregated {strengths : List K} {key : Nat} {set : FuzzySet K} (x : K) :
    letI := functions.scalar
    ∀ {self : Mamdani K}, self.aggregated? strengths key = some set →
      set.degree x = self.aggregation.link.fold ((self.concludingOn key strengths).map fun entry =>
        (self.implied entry.1 entry.2).degree x) := by
  let := functions.scalar
  intro self found
  obtain ⟨_, rfl⟩ := aggregated?_eq_some_iff.1 found
  rw [functions.degree_composite, List.map_map]
  rfl

variable {strengths greater : List K} {key : Nat} {set other : FuzzySet K} (x : K)

/-- Stronger rules raise the aggregated set. -/
theorem raised_aggregated (each : List.Forall₂ (· ≤ ·) strengths greater) :
    letI := functions.scalar
    ∀ {self : Mamdani K}, self.aggregated? strengths key = some set →
      self.aggregated? greater key = some other → Raised (set.degree x) (other.degree x) := by
  let := functions.scalar
  intro self found found_other
  rw [degree_aggregated functions x found, degree_aggregated functions x found_other]
  refine functions.raised_fold_of_apply (functions.raised_link _) ?_
  refine List.forall₂_map_left_iff.2 (List.forall₂_map_right_iff.2 ?_)
  -- the same rules conclude on the output, and each of them fires at least as strongly
  have concluding : List.Forall₂ (fun entry stronger => entry.1 = stronger.1 ∧ entry.2 ≤ stronger.2)
      (self.concludingOn key strengths) (self.concludingOn key greater) := by
    refine List.rel_filter (fun entry stronger beside => ?_) (forall₂_zip_left self.rules each)
    simp only [beside.1]
  exact concluding.imp fun entry stronger beside =>
    beside.1 ▸ raised_implied functions x self entry.1 beside.2

theorem implied_le_aggregated {index : Nat} {strength : K}
    (strength_at : strengths[index]? = some strength) :
    letI := functions.scalar
    ∀ {self : Mamdani K} {rule : Rule K}, self.rules[index]? = some rule →
      self.aggregated? strengths rule.conclusion.output = some set →
        (self.implied rule strength).degree x ≤ set.degree x := by
  let := functions.scalar
  intro self rule rule_at found
  have entry_at : (self.rules.zip strengths)[index]? = some (rule, strength) :=
    List.getElem?_zip_eq_some.2 ⟨rule_at, strength_at⟩
  have concluding : (rule, strength) ∈ self.concludingOn rule.conclusion.output strengths :=
    List.mem_filter.2 ⟨List.mem_of_getElem? entry_at, beq_self_eq_true _⟩
  rw [degree_aggregated functions x found]
  refine functions.le_fold_of_mem self.aggregation ?_ (List.mem_map_of_mem concluding)
  exact List.forall_mem_map.2 fun entry _ => functions.isDegree_degree _ x

/-- Aggregation by the maximum gives the least set. -/
theorem maximum_le_aggregated (aggregation : Aggregation) :
    letI := functions.scalar
    ∀ {self : Mamdani K}, (self.withAggregation .maximum).aggregated? strengths key = some set →
      (self.withAggregation aggregation).aggregated? strengths key = some other →
        set.degree x ≤ other.degree x := by
  let := functions.scalar
  intro self found found_other
  rw [degree_aggregated functions x found, degree_aggregated functions x found_other]
  exact functions.fold_maximum_le_fold aggregation
    (List.forall_mem_map.2 fun entry _ => functions.isDegree_degree _ x)

end Degrees

end Mamdani

/--
In exact arithmetic every implied set is the implication of the clamped strength of its rule and
the concluded set, at most either of them, and at most the set that is aggregated for the output
of its rule.  Every output has such a set: it folds the implied sets, gives degrees, grows with
the strengths, and is at most as great under the maximum as under the probabilistic sum.
-/
theorem aggregated_sets_respond {K : Type} [Field K] [LinearOrder K] [IsStrictOrderedRing K]
    (functions : Elementary K) :
    letI := functions.scalar
    ∀ (self : Mamdani K) (strengths : List K),
      (∀ (index : Nat) (rule : Rule K) (strength : K), self.rules[index]? = some rule →
        strengths[index]? = some strength →
          ∃ implied : FuzzySet K, (self.implicate strengths)[index]? = some implied ∧ ∀ x,
            implied.degree x = self.implication.link.apply (clampUnit strength)
              ((self.concludedSet rule.conclusion).degree x) ∧
            implied.degree x ≤ clampUnit strength ∧
            implied.degree x ≤ (self.concludedSet rule.conclusion).degree x ∧
            ∀ set, self.aggregated? strengths rule.conclusion.output = some set →
              implied.degree x ≤ set.degree x) ∧
      ∀ key < self.outputs.length, ∃ set, self.aggregated? strengths key = some set ∧
        (∀ x, IsDegree (set.degree x) ∧
          set.degree x = self.aggregation.link.fold ((self.concludingOn key strengths).map
            fun entry => (self.implied entry.1 entry.2).degree x)) ∧
        (∀ greater, List.Forall₂ (· ≤ ·) strengths greater →
          ∃ raised, self.aggregated? greater key = some raised ∧
            ∀ x, set.degree x ≤ raised.degree x) ∧
        ∃ highest summed,
          (self.withAggregation .maximum).aggregated? strengths key = some highest ∧
          (self.withAggregation .sum).aggregated? strengths key = some summed ∧
          ∀ x, highest.degree x ≤ summed.degree x := by
  let := functions.scalar
  intro self strengths
  refine ⟨fun index rule strength rule_at strength_at => ?_, fun key less => ?_⟩
  · refine ⟨_, Mamdani.getElem?_implicate rule_at strength_at, fun x => ?_⟩
    obtain ⟨le_strength, le_concluded⟩ := Mamdani.implied_le functions x self rule strength
    exact ⟨Mamdani.degree_implied_clamped functions x self rule strength, le_strength,
      le_concluded, fun set => Mamdani.implied_le_aggregated functions x strength_at rule_at⟩
  · have declared (aggregation : Aggregation) :
        key < (self.withAggregation aggregation).outputs.length := less
    obtain ⟨set, found⟩ := Mamdani.exists_aggregated less strengths
    obtain ⟨highest, found_highest⟩ := Mamdani.exists_aggregated (declared .maximum) strengths
    obtain ⟨summed, found_summed⟩ := Mamdani.exists_aggregated (declared .sum) strengths
    refine ⟨set, found, fun x => ?_, fun greater each => ?_, highest, summed, found_highest,
      found_summed, fun x => ?_⟩
    · exact ⟨functions.isDegree_degree set x, Mamdani.degree_aggregated functions x found⟩
    · obtain ⟨raised, found_raised⟩ := Mamdani.exists_aggregated less greater
      exact ⟨raised, found_raised, fun x =>
        (Mamdani.raised_aggregated functions x each found found_raised).le⟩
    · exact Mamdani.maximum_le_aggregated functions x .sum found_highest found_summed

def overlappingTip : Mamdani ℚ :=
  { cautiousTip with
    outputs := [⟨"tip", 0, 25, by decide +kernel,
      [⟨"low", .triangular 0 10 20⟩, ⟨"high", .triangular 5 15 25⟩]⟩] }

theorem overlappingTip_responds :
    List.Forall₂ (· ≤ ·) [1 / 3, 1 / 2] [1 / 2, (2 : ℚ)] ∧
    (∃ implied, (overlappingTip.implicate [1 / 2, 2])[1]? = some implied ∧
      implied.degree 12 = 4 / 5 ∧ ∀ x, implied.degree x ≤ clampUnit 2) ∧
    ∃ set raised highest,
      overlappingTip.aggregated? [1 / 3, 1 / 2] 0 = some set ∧
      overlappingTip.aggregated? [1 / 2, 2] 0 = some raised ∧
      (overlappingTip.withAggregation .maximum).aggregated? [1 / 3, 1 / 2] 0 = some highest ∧
      highest.degree 12 = 1 / 2 ∧ set.degree 12 = 2 / 3 ∧ raised.degree 12 = 9 / 10 ∧
      ∀ x, highest.degree x ≤ set.degree x ∧ set.degree x ≤ raised.degree x := by
  have stronger : List.Forall₂ (· ≤ ·) [1 / 3, 1 / 2] [1 / 2, (2 : ℚ)] :=
    .cons (by decide +kernel) (.cons (by decide +kernel) .nil)
  obtain ⟨_, aggregated⟩ := aggregated_sets_respond Elementary.rational overlappingTip
    [1 / 3, 1 / 2]
  obtain ⟨shaped, _⟩ := aggregated_sets_respond Elementary.rational overlappingTip [1 / 2, 2]
  obtain ⟨implied, implied_at, implied_le⟩ := shaped 1 danglingRule 2 rfl rfl
  obtain ⟨set, found, _, grows, highest, summed, found_highest, found_summed, highest_le⟩ :=
    aggregated 0 (Nat.zero_lt_succ 0)
  obtain ⟨raised, found_raised, le_raised⟩ := grows [1 / 2, 2] stronger
  -- the tip is aggregated by the sum as it stands
  obtain rfl : set = summed := Option.some.inj (found.symm.trans found_summed)
  have implied_eq : ((overlappingTip.implicate [1 / 2, 2])[1]?).map (FuzzySet.degree 12) =
      some (4 / 5) := by decide +kernel
  have highest_eq : ((overlappingTip.withAggregation .maximum).aggregated? [1 / 3, 1 / 2] 0).map
      (FuzzySet.degree 12) = some (1 / 2) := by decide +kernel
  have set_eq : (overlappingTip.aggregated? [1 / 3, 1 / 2] 0).map (FuzzySet.degree 12) =
      some (2 / 3) := by decide +kernel
  have raised_eq : (overlappingTip.aggregated? [1 / 2, 2] 0).map (FuzzySet.degree 12) =
      some (9 / 10) := by decide +kernel
  rw [implied_at] at implied_eq
  rw [found_highest] at highest_eq
  rw [found] at set_eq
  rw [found_raised] at raised_eq
  exact ⟨stronger, ⟨implied, implied_at, Option.some.inj implied_eq, fun x => (implied_le x).2.1⟩,
    set, raised, highest, found, found_raised, found_highest, Option.some.inj highest_eq,
    Option.some.inj set_eq, Option.some.inj raised_eq, fun x => ⟨highest_le x, le_raised x⟩⟩

end FuzzyControl
