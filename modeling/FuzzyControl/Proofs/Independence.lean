import FuzzyControl.Proofs.Calculation
import FuzzyControl.Proofs.RuleText

/-!
# Outputs do not interfere

The value of an output is decided by the inputs, the connectives, the output itself and the
rules that conclude on it.  Two controllers that share these give the output the very same
value, whatever the operations on numbers return.
-/

namespace FuzzyControl

variable {α ω : Type} [Scalar α]

/-- Two answers fail with one cause, or both give the output one value. -/
def AgreeOn (key : Nat) (first second : Except (Error α) (KeyMap α)) : Prop :=
  (∃ cause, first = .error cause ∧ second = .error cause) ∨
  ∃ firstValues secondValues value, first = .ok firstValues ∧ second = .ok secondValues ∧
    firstValues.get? key = some value ∧ secondValues.get? key = some value

namespace RuleBase

/-- The rule bases differ at most in other outputs and in the rules that conclude on those. -/
structure SharesOutput (first second : RuleBase α ω) (key : Nat) : Prop where
  inputs : first.inputs = second.inputs
  norms : first.norms = second.norms
  declared : ∃ output, first.outputs[key]? = some output ∧ second.outputs[key]? = some output
  rulesOn : first.rulesOn key = second.rulesOn key

namespace SharesOutput

variable {first second : RuleBase α ω} {key : Nat} (shares : first.SharesOutput second key)

include shares

theorem output : first.outputs[key]? = second.outputs[key]? := by
  obtain ⟨_, here, there⟩ := shares.declared
  rw [here, there]

theorem validate (values : KeyMap α) : first.validate values = second.validate values := by
  rw [RuleBase.validate, RuleBase.validate, shares.inputs]

theorem memberships (values : KeyMap α) : first.memberships values = second.memberships values := by
  rw [RuleBase.memberships, RuleBase.memberships, shares.inputs]

theorem strength (memberships : Memberships α) (rule : Rule α) :
    first.strength memberships rule = second.strength memberships rule := by
  rw [RuleBase.strength, RuleBase.strength, shares.norms]

/-- Both rule bases check the same, so they agree if their computations do. -/
theorem agreeOn_inferWith (some_first : first.rules ≠ []) (some_second : second.rules ≠ [])
    {firstFinish secondFinish : Memberships α → KeyMap α} {values : KeyMap α}
    (agree : ∃ value, (firstFinish (first.memberships values)).get? key = some value ∧
      (secondFinish (first.memberships values)).get? key = some value) :
    AgreeOn key (first.inferWith values firstFinish) (second.inferWith values secondFinish) := by
  cases outcome : first.validate values with
  | error cause =>
      have refused := (shares.validate values).symm.trans outcome
      exact .inl ⟨cause, inferWith_eq_error_iff.2 (.inr ⟨some_first, outcome⟩),
        inferWith_eq_error_iff.2 (.inr ⟨some_second, refused⟩)⟩
  | ok checked =>
      have accepted := (shares.validate values).symm.trans outcome
      obtain ⟨value, here, there⟩ := agree
      rw [shares.memberships] at there
      exact .inr ⟨_, _, value, inferWith_eq_ok some_first outcome _,
        inferWith_eq_ok some_second accepted _, here, there⟩

end SharesOutput

end RuleBase

/-! ## Mamdani controllers -/

namespace Mamdani

/-- Beside one output with its rules, the controllers share all operators. -/
structure SharesOutput (first second : Mamdani α) (key : Nat) : Prop extends
    first.toRuleBase.SharesOutput second.toRuleBase key where
  implication : first.implication = second.implication
  aggregation : first.aggregation = second.aggregation
  defuzzification : first.defuzzification = second.defuzzification

namespace SharesOutput

variable {first second : Mamdani α} {key : Nat} (shares : first.SharesOutput second key)

include shares

/-- A rule on the shared output implies the same set, since it looks up no other output. -/
theorem implied {rule : Rule α} (concludes : rule.conclusion.output = key) (strength : α) :
    first.implied rule strength = second.implied rule strength := by
  have concluded : first.concludedSet rule.conclusion = second.concludedSet rule.conclusion := by
    rw [concludedSet, concludedSet, concludes, shares.output]
  rw [Mamdani.implied, Mamdani.implied, concluded, shares.implication]

theorem aggregateOn (memberships : Memberships α) :
    first.aggregateOn (first.implicate (first.strengths memberships)) key =
      second.aggregateOn (second.implicate (second.strengths memberships)) key := by
  have implied_eq : ((first.rulesOn key).map fun rule =>
      first.implied rule (first.strength memberships rule)) =
        (first.rulesOn key).map fun rule =>
          second.implied rule (second.strength memberships rule) := by
    refine List.map_congr_left fun rule member => ?_
    rw [shares.strength, shares.implied (RuleBase.mem_rulesOn_iff.1 member).2]
  rw [aggregateOn_implicate, aggregateOn_implicate, implied_eq, shares.rulesOn, shares.aggregation]

theorem crispOn (memberships : Memberships α) (output : LinguisticVariable α) :
    first.crispOn memberships key output = second.crispOn memberships key output := by
  rw [Mamdani.crispOn, Mamdani.crispOn, shares.aggregateOn, shares.defuzzification]

theorem agreeOn_calculate (some_first : first.rules ≠ []) (some_second : second.rules ≠ [])
    (values : KeyMap α) : AgreeOn key (first.calculate values) (second.calculate values) := by
  obtain ⟨output, here, there⟩ := shares.declared
  rw [calculate_eq_inferWith, calculate_eq_inferWith]
  refine shares.agreeOn_inferWith some_first some_second
    ⟨first.crispOn (first.memberships values) key output, ?_, ?_⟩
  · exact KeyMap.get?_ofPositions_mapIdx here _
  · rw [shares.crispOn]
    exact KeyMap.get?_ofPositions_mapIdx there _

end SharesOutput

end Mamdani

/-! ## Sugeno controllers -/

namespace Sugeno

variable {first second : Sugeno α} {key : Nat}

/-- A rule on the shared output concludes the same value, since it looks up no other output. -/
theorem concluded_of_shares (shares : first.toRuleBase.SharesOutput second.toRuleBase key)
    (values : KeyMap α) {rule : Rule α} (concludes : rule.conclusion.output = key) :
    first.concluded values rule = second.concluded values rule := by
  rw [concluded, concluded, concludedValue, concludedValue, concludes, functionValues,
    functionValues, KeyMap.get?_ofPositions, KeyMap.get?_ofPositions, List.getElem?_map,
    List.getElem?_map, shares.output]

theorem meanOn_of_shares (shares : first.toRuleBase.SharesOutput second.toRuleBase key)
    (memberships : Memberships α) (values : KeyMap α) :
    first.meanOn memberships values key = second.meanOn memberships values key := by
  have entries_eq : ((first.rulesOn key).map fun rule =>
      (first.concluded values rule, first.strength memberships rule)) =
        (first.rulesOn key).map fun rule =>
          (second.concluded values rule, second.strength memberships rule) := by
    refine List.map_congr_left fun rule member => ?_
    rw [concluded_of_shares shares values (RuleBase.mem_rulesOn_iff.1 member).2, shares.strength]
  rw [meanOn, meanOn, entries_eq, shares.rulesOn]

theorem agreeOn_of_shares (shares : first.toRuleBase.SharesOutput second.toRuleBase key)
    (some_first : first.rules ≠ []) (some_second : second.rules ≠ []) (values : KeyMap α) :
    AgreeOn key (first.calculate values) (second.calculate values) := by
  obtain ⟨output, here, there⟩ := shares.declared
  rw [calculate_eq_inferWith, calculate_eq_inferWith]
  refine shares.agreeOn_inferWith some_first some_second
    ⟨first.meanOn (first.memberships values) values key, ?_, ?_⟩
  · exact KeyMap.get?_ofPositions_mapIdx here _
  · rw [meanOn_of_shares shares]
    exact KeyMap.get?_ofPositions_mapIdx there _

end Sugeno

/--
Two controllers with the same inputs and operators, the same variable under one key and the
same rules on it, refuse the same values for the same cause, and else give that output the
same value.  Their other outputs and the rules on those may differ in any way.
-/
theorem agreeOn_of_sharesOutput (key : Nat) (values : KeyMap α) :
    (∀ first second : Mamdani α, first.SharesOutput second key →
      first.rules ≠ [] → second.rules ≠ [] →
        AgreeOn key (first.calculate values) (second.calculate values)) ∧
    (∀ first second : Sugeno α, first.toRuleBase.SharesOutput second.toRuleBase key →
      first.rules ≠ [] → second.rules ≠ [] →
        AgreeOn key (first.calculate values) (second.calculate values)) :=
  ⟨fun _ _ shares some_first some_second =>
      shares.agreeOn_calculate some_first some_second values,
    fun _ _ shares some_first some_second =>
      Sugeno.agreeOn_of_shares shares some_first some_second values⟩

def tip : LinguisticVariable Float :=
  ⟨"tip", 0, 25, by decide, [⟨"low", .triangular 0 5 10⟩, ⟨"high", .triangular 15 20 25⟩]⟩

def foodRule (term output value : Nat) : Rule Float :=
  .ofStatement ⟨.leaf ⟨0, term, false, none⟩, ⟨output, value, false⟩⟩

def wineAndTip : Mamdani Float :=
  ⟨⟨default, [RuleBase.food], [⟨"wine", 0, 1, by decide, [⟨"red", .constant 1⟩]⟩, tip],
    [foodRule 0 1 0, foodRule 0 0 0, foodRule 1 1 1]⟩, .product, .sum, .bisector⟩

/-- A controller of the bread, the tip and the coffee; one of its rules concludes on nothing. -/
def breadAndTip : Mamdani Float :=
  ⟨⟨default, [RuleBase.food], [⟨"bread", 3, 4, by decide, []⟩, tip, { tip with name := "coffee" }],
    [foodRule 1 2 0, foodRule 1 0 7, foodRule 0 1 0, foodRule 0 2 1, foodRule 1 1 1]⟩,
    .product, .sum, .bisector⟩

/-- The affine tip, as the only output or after another one. -/
def affineTips (before : List (AffineVariable Float)) (rules : List (Rule Float)) : Sugeno Float :=
  ⟨⟨default, [RuleBase.food], before ++ [⟨"tip", [⟨"low", ∅, 5⟩, ⟨"high", .ofList [(0, 2)], 1⟩]⟩],
    rules⟩⟩

theorem tips_agree :
    (∃ first second value,
      wineAndTip.calculate (.ofList [(0, 3)]) = .ok first ∧
      breadAndTip.calculate (.ofList [(0, 3)]) = .ok second ∧
      first.get? 1 = some value ∧ second.get? 1 = some value) ∧
    AgreeOn 1
      ((affineTips [⟨"wine", []⟩] [foodRule 0 1 0, foodRule 1 1 1]).calculate (.ofList [(0, 3)]))
      ((affineTips [⟨"bread", [⟨"rye", ∅, 1⟩]⟩]
        [foodRule 0 1 0, foodRule 0 0 0, foodRule 1 1 1]).calculate (.ofList [(0, 3)])) := by
  have agree := agreeOn_of_sharesOutput (α := Float) 1 (.ofList [(0, 3)])
  refine ⟨?_, agree.2 _ _ ⟨rfl, rfl, ⟨_, rfl, rfl⟩, rfl⟩ (List.cons_ne_nil _ _)
    (List.cons_ne_nil _ _)⟩
  have accepted : wineAndTip.validate (.ofList [(0, 3)]) = .ok () :=
    Outcome.eq_ok_of_isOk (by decide +kernel)
  have succeeds := wineAndTip.calculate_eq_inferWith (.ofList [(0, 3)])
  rw [RuleBase.inferWith_eq_ok (List.cons_ne_nil _ _) accepted] at succeeds
  rcases agree.1 wineAndTip breadAndTip ⟨⟨rfl, rfl, ⟨_, rfl, rfl⟩, rfl⟩, rfl, rfl, rfl⟩
    (List.cons_ne_nil _ _) (List.cons_ne_nil _ _) with ⟨cause, fails, _⟩ | answers
  · rw [succeeds] at fails
    cases fails
  · exact answers

end FuzzyControl
