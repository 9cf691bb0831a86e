import FuzzyControl.Proofs.Arithmetic
import FuzzyControl.Proofs.Calculation
import FuzzyControl.Proofs.Degree
import FuzzyControl.Proofs.Invariant
import FuzzyControl.Scalar.Rational

/-!
# Sugeno inference as weighted means

In exact arithmetic a Sugeno controller gives each output the mean of what the rules on it
conclude, weighted by their strengths.  No strength is below zero, so a sum of strengths that
is zero means that no rule fires.
-/

namespace FuzzyControl

variable {K ρ : Type} [Field K] [LinearOrder K]

/-! ## Means -/

/-- A number is the mean of the values of items by weights, and zero if there is no weight. -/
structure IsMean (items : List ρ) (weight value : ρ → K) (mean : K) : Prop where
  eq_quotient : mean = if (items.map weight).sum = 0 then 0
    else (items.map fun item => value item * weight item).sum / (items.map weight).sum
  weightless_iff : (items.map weight).sum = 0 ↔ ∀ item ∈ items, weight item = 0
  between : (items.map weight).sum ≠ 0 →
    ∃ least ∈ items, ∃ greatest ∈ items, 0 < weight least ∧ 0 < weight greatest ∧
      (∀ item ∈ items, 0 < weight item →
        value least ≤ value item ∧ value item ≤ value greatest) ∧
      value least ≤ mean ∧ mean ≤ value greatest

namespace Sugeno

variable (functions : Elementary K)

theorem weightedMean_eq (items : List ρ) (weight value : ρ → K) :
    letI := functions.scalar
    weightedMean (items.map fun item => (value item, weight item)) =
      if (items.map weight).sum = 0 then 0
      else (items.map fun item => value item * weight item).sum / (items.map weight).sum := by
  let := functions.scalar
  simp only [weightedMean, functions.total_eq_sum, List.map_map, Function.comp_def, beq_iff_eq]

/-- A common factor of all weights does not change the mean. -/
theorem weightedMean_scale {factor : K} (nonzero : factor ≠ 0) (items : List ρ)
    (weight value : ρ → K) :
    letI := functions.scalar
    weightedMean (items.map fun item => (value item, factor * weight item)) =
      weightedMean (items.map fun item => (value item, weight item)) := by
  let := functions.scalar
  have numerator_eq : (items.map fun item => value item * (factor * weight item)).sum =
      factor * (items.map fun item => value item * weight item).sum := by
    rw [← List.sum_map_mul_left]
    simp only [mul_left_comm]
  have denominator_eq : (items.map fun item => factor * weight item).sum =
      factor * (items.map weight).sum := List.sum_map_mul_left items weight factor
  rw [weightedMean_eq, weightedMean_eq, numerator_eq, denominator_eq,
    mul_div_mul_left _ _ nonzero]
  simp only [mul_eq_zero, nonzero, false_or]

variable [IsStrictOrderedRing K]

theorem isMean_weightedMean {items : List ρ} {weight : ρ → K}
    (nonneg : ∀ item ∈ items, 0 ≤ weight item) (value : ρ → K) :
    letI := functions.scalar
    IsMean items weight value
      (weightedMean (items.map fun item => (value item, weight item))) := by
  let := functions.scalar
  refine ⟨weightedMean_eq functions items weight value, sum_weights_eq_zero_iff nonneg,
    fun some_weight => ?_⟩
  have some_item : items.filter (0 < weight ·) ≠ [] := by
    intro none_weighs
    refine some_weight ((sum_weights_eq_zero_iff nonneg).2 fun item member => ?_)
    have weightless := List.filter_eq_nil_iff.1 none_weighs item member
    exact le_antisymm (not_lt.1 (by simpa using weightless)) (nonneg item member)
  obtain ⟨least, least_weighs, greatest, greatest_weighs, extreme⟩ :=
    exists_extremes some_item value
  obtain ⟨least_member, least_pos⟩ := List.mem_filter.1 least_weighs
  obtain ⟨greatest_member, greatest_pos⟩ := List.mem_filter.1 greatest_weighs
  have extreme_of_weighs : ∀ item ∈ items, 0 < weight item →
      value least ≤ value item ∧ value item ≤ value greatest := fun item member weighs =>
    extreme item (List.mem_filter.2 ⟨member, decide_eq_true weighs⟩)
  have inside := mean_mem nonneg some_weight extreme_of_weighs
  rw [weightedMean_eq, if_neg some_weight]
  exact ⟨least, least_member, greatest, greatest_member, of_decide_eq_true least_pos,
    of_decide_eq_true greatest_pos, extreme_of_weighs, inside⟩

end Sugeno

/-! ## Strengths -/

namespace RuleBase

variable {α ω : Type} [Scalar α]

/-- Multiplies the strengths of the rules on one output. -/
def scaleOn (self : RuleBase α ω) (output : Nat) (factor : α) (strengths : List α) : List α :=
  (self.rules.zip strengths).map fun entry =>
    if entry.1.conclusion.output = output then factor * entry.2 else entry.2

theorem scaleOn_map (self : RuleBase α ω) (output : Nat) (factor : α) (strength : Rule α → α) :
    self.scaleOn output factor (self.rules.map strength) = self.rules.map fun rule =>
      if rule.conclusion.output = output then factor * strength rule else strength rule := by
  rw [scaleOn, ← List.map_prod_left_eq_zip, List.map_map]
  rfl

end RuleBase

namespace Sugeno

section Outputs

variable {α : Type} [Scalar α] {self : Sugeno α} {key : Nat} {output : AffineVariable α}

theorem get?_combine (declared : self.outputs[key]? = some output) (strength : Rule α → α)
    (values : KeyMap α) :
    (self.combine (self.rules.map strength) (self.functionValues values)).get? key =
      some (weightedMean
        ((self.rulesOn key).map fun rule => (self.concluded values rule, strength rule))) := by
  rw [combine, map_range_length, KeyMap.get?_ofPositions_mapIdx declared, combineOn_eq]

/-- A rule of a sound controller concludes the value of a declared function. -/
theorem exists_function (sound : self.toRuleBase.Sound)
    (declared : self.outputs[key]? = some output) {rule : Rule α}
    (concludes : rule ∈ self.rulesOn key) (values : KeyMap α) :
    ∃ function, output.functions[rule.conclusion.value]? = some function ∧
      self.concluded values rule = function.value values := by
  obtain ⟨member, on_key⟩ := RuleBase.mem_rulesOn_iff.1 concludes
  obtain ⟨own, own_declared, less⟩ :=
    RuleBase.conclusionWithin_iff.1 (sound.within rule member).concluded
  rw [on_key, declared] at own_declared
  cases own_declared
  have here : rule.conclusion.value < output.functions.length := by
    simpa [OutputVariable.valueCount, OutputVariable.signature, AffineVariable.signature]
      using less
  refine ⟨output.functions[rule.conclusion.value], List.getElem?_eq_getElem here, ?_⟩
  rw [concluded, concludedValue, functionValues, KeyMap.get?_ofPositions, List.getElem?_map,
    on_key, declared, Option.map_some, Option.bind_some, AffineVariable.values,
    List.getElem?_map, List.getElem?_eq_getElem here]
  rfl

end Outputs

end Sugeno

/--
In exact arithmetic a Sugeno controller with rules that operations have made refuses to infer
just when it has no rules or the values are not accepted.  Else it gives one value to each
declared output and to nothing else: the mean of the functions that the rules on the output
conclude, weighted by the strengths of the rules and unchanged by a positive factor of them.
-/
theorem calculate_eq_means [IsStrictOrderedRing K] (functions : Elementary K)
    (bounded : functions.Bounded) :
    letI := functions.scalar
    ∀ self : Sugeno K, self.toRuleBase.Reachable → ∀ values : KeyMap K,
      (∀ cause, self.calculate values = .error cause ↔ self.Refuses values cause) ∧
      (self.rules ≠ [] → self.validate values = .ok () →
        ∃ results, self.calculate values = .ok results ∧
          results.keys = List.range self.outputs.length ∧
          ∀ key output, self.outputs[key]? = some output →
            (∀ rule ∈ self.rulesOn key, ∃ function,
              output.functions[rule.conclusion.value]? = some function ∧
              self.concluded values rule = function.value values) ∧
            ∃ mean, results.get? key = some mean ∧
              IsMean (self.rulesOn key) (self.strength (self.memberships values))
                (self.concluded values) mean ∧
              ∀ factor, 0 < factor →
                (self.combine
                  (self.scaleOn key factor (self.strengths (self.memberships values)))
                  (self.functionValues values)).get? key = some mean) := by
  let := functions.scalar
  have lawful := bounded.lawfulDegrees
  intro self reachable values
  have sound := reachable.sound LawfulDegrees.isDegree_one
  rw [self.calculate_eq_inferWith]
  refine ⟨fun cause => RuleBase.inferWith_eq_error_iff, fun some_rule accepted => ?_⟩
  refine ⟨_, RuleBase.inferWith_eq_ok some_rule accepted _,
    KeyMap.keys_ofPositions_mapIdx _ _, fun key output declared => ?_⟩
  have inside := self.isDegree_strengths values sound.weighted
  have nonneg : ∀ rule ∈ self.rulesOn key, 0 ≤ self.strength (self.memberships values) rule :=
    fun rule concludes => (inside rule (RuleBase.mem_rulesOn_iff.1 concludes).1).1
  refine ⟨fun rule concludes => Sugeno.exists_function sound declared concludes values,
    self.meanOn (self.memberships values) values key,
    KeyMap.get?_ofPositions_mapIdx declared _, Sugeno.isMean_weightedMean functions nonneg _,
    fun factor positive => ?_⟩
  have scaled : ((self.rulesOn key).map fun rule => (self.concluded values rule,
      if rule.conclusion.output = key then factor * self.strength (self.memberships values) rule
      else self.strength (self.memberships values) rule)) =
        (self.rulesOn key).map fun rule =>
          (self.concluded values rule, factor * self.strength (self.memberships values) rule) :=
    List.map_congr_left fun rule concludes => by
      rw [if_pos (RuleBase.mem_rulesOn_iff.1 concludes).2]
  rw [RuleBase.strengths, RuleBase.scaleOn_map, Sugeno.get?_combine declared, scaled,
    Sugeno.weightedMean_scale functions positive.ne', Sugeno.meanOn]

/-- Operations that declare a food, a tip and a wine and add rules on the tip; the last fails. -/
def tippingOperations : List (Operation ℚ (AffineVariable ℚ) (AffineFunction ℚ)) :=
  [.addInput ⟨"food", 1, 10, by decide +kernel, [⟨"good", .triangular 0 10 10⟩]⟩,
    .addOutput ⟨"tip", [⟨"low", ∅, 2⟩, ⟨"high", .ofList [(0, 1 / 2)], 6⟩]⟩,
    .addOutput ⟨"wine", [⟨"red", ∅, 30⟩]⟩,
    .addRule (.ofStatement ⟨.leaf ⟨0, 0, true, none⟩, ⟨0, 0, false⟩⟩),
    .addRule (.ofStatement ⟨.leaf ⟨0, 0, false, some .very⟩, ⟨0, 1, false⟩⟩),
    .addRule (.ofStatement ⟨.leaf ⟨0, 0, false, none⟩, ⟨1, 1, false⟩⟩)]

def meanTip : Sugeno ℚ :=
  ⟨(RuleBase.empty default).performAll tippingOperations⟩

theorem meanTip_infers :
    ∃ results, meanTip.calculate (.ofList [(0, 4)]) = .ok results ∧ results.keys = [0, 1] ∧
      results.get? 0 = some (62 / 19) ∧ results.get? 1 = some 0 := by
  have built : ∀ operation ∈ tippingOperations, operation.Built := by
    simp [tippingOperations, Operation.Built, Rule.Built.ofStatement]
  have some_rule : meanTip.rules ≠ [] :=
    List.isEmpty_eq_false_iff.1 (by decide +kernel)
  have accepted : meanTip.validate (.ofList [(0, 4)]) = .ok () :=
    Outcome.eq_ok_of_isOk (by decide +kernel)
  obtain ⟨results, calculated, keys_eq, means⟩ :=
    (calculate_eq_means Elementary.rational Elementary.rational_bounded meanTip
      ⟨default, tippingOperations, built, rfl⟩ (.ofList [(0, 4)])).2 some_rule accepted
  obtain ⟨_, tip, tip_found, tip_mean, _⟩ := means 0 _ rfl
  obtain ⟨_, wine, wine_found, wine_mean, _⟩ := means 1 _ rfl
  have two : List.range meanTip.outputs.length = [0, 1] := by decide +kernel
  rw [tip_mean.eq_quotient] at tip_found
  rw [wine_mean.eq_quotient] at wine_found
  exact ⟨results, calculated, keys_eq.trans two, tip_found.trans (by decide +kernel),
    wine_found.trans (by decide +kernel)⟩

end FuzzyControl
