import FuzzyControl.Proofs.Calculation
import FuzzyControl.Proofs.Degree
import FuzzyControl.Proofs.Invariant
import FuzzyControl.Scalar.Rational

/-!
# Strengths stay degrees

Inputs that are fuzzified give every condition a degree and every rule a strength in
`[0, 1]`.  So it changes nothing that strengths are clamped before they shape a set.
-/

namespace FuzzyControl

open Scalar LawfulDegrees

variable {α ω : Type} [Scalar α]

theorem RuleBase.areDegrees_of_fuzzify [LawfulDegrees α] {self : RuleBase α ω} {values : KeyMap α}
    {memberships : Memberships α} (fuzzified : self.fuzzify values = .ok memberships) :
    memberships.AreDegrees := by
  obtain ⟨_, same⟩ := Outcome.check_bind_eq_ok_iff.1 fuzzified
  cases same
  exact self.memberships_areDegrees values

namespace Mamdani

/-- The set that a rule of the given strength implies if the strength is taken as it is. -/
def shapedBy (self : Mamdani α) (rule : Rule α) (strength : α) : FuzzySet α :=
  .composite self.implication.link [.constant strength, self.concludedSet rule.conclusion]

theorem implicate_eq_map_shapedBy [LawfulDegrees α] (self : Mamdani α)
    {memberships : Memberships α}
    (inside : ∀ rule ∈ self.rules, IsDegree (self.strength memberships rule)) :
    self.implicate (self.strengths memberships) =
      self.rules.map fun rule => self.shapedBy rule (self.strength memberships rule) := by
  rw [implicate, RuleBase.strengths, ← List.map_prod_left_eq_zip, List.map_map]
  refine List.map_congr_left fun rule member => ?_
  simp only [Function.comp_apply, implied, shapedBy, clampUnit_eq (inside rule member)]

end Mamdani

/--
In exact arithmetic every condition has a degree in `[0, 1]` at fuzzified inputs, whichever
connectives are chosen and whether or not the condition refers to declared terms only.  Rules
whose weights were checked fire with such degrees, and implication does not clamp any of them.
-/
theorem strengths_stay_degrees {K : Type} [Field K] [LinearOrder K] [IsStrictOrderedRing K]
    (functions : Elementary K) (bounded : functions.Bounded) :
    letI := functions.scalar
    ∀ {ω : Type} (source : RuleBase K ω) (values : KeyMap K) (memberships : Memberships K),
      source.fuzzify values = .ok memberships →
        (∀ (norms : Norms) (condition : Condition),
          IsDegree (condition.degree norms memberships)) ∧
        (∀ {ω : Type} (self : RuleBase K ω), (∀ rule ∈ self.rules, rule.Built) →
          ∀ strength ∈ self.strengths memberships,
            IsDegree strength ∧ clampUnit strength = strength) ∧
        (∀ self : Mamdani K, (∀ rule ∈ self.rules, rule.Built) →
          self.implicate (self.strengths memberships) =
            self.rules.map fun rule => self.shapedBy rule (self.strength memberships rule)) := by
  let := functions.scalar
  have lawful := bounded.lawfulDegrees
  intro ω source values memberships fuzzified
  have inside := RuleBase.areDegrees_of_fuzzify fuzzified
  have strength_inside {ω : Type} (self : RuleBase K ω) {rule : Rule K} (built : rule.Built) :
      IsDegree (self.strength memberships rule) :=
    self.isDegree_strength inside (built.isDegree isDegree_one)
  refine ⟨fun norms condition => condition.isDegree_degree norms inside,
    fun self built strength member => ?_, fun self built => ?_⟩
  · obtain ⟨rule, rule_member, rfl⟩ := List.mem_map.1 member
    have degree := strength_inside self (built rule rule_member)
    exact ⟨degree, clampUnit_eq degree⟩
  · exact self.implicate_eq_map_shapedBy fun rule member =>
      strength_inside self.toRuleBase (built rule member)

/-- A condition on an input and a term that nobody declares, joined with an empty group. -/
def danglingCondition : Condition :=
  .group .and false [.group .or true [], .leaf ⟨7, 3, true, some .extremely⟩]

def cautiousRule : Rule ℚ :=
  ⟨⟨.leaf ⟨0, 0, false, some .very⟩, ⟨0, 1, false⟩⟩, 1 / 3⟩

def danglingRule : Rule ℚ :=
  .ofStatement ⟨danglingCondition, ⟨0, 0, false⟩⟩

def cautiousTip : Mamdani ℚ where
  norms := ⟨.boundedProduct, .drasticSum⟩
  inputs := [⟨"food", 0, 5, by decide +kernel, [⟨"good", .triangular 0 5 5⟩]⟩]
  outputs := [⟨"tip", 5, 30, by decide +kernel, [⟨"low", .triangular 5 10 15⟩]⟩]
  rules := [cautiousRule, danglingRule]
  implication := .minimum
  aggregation := .sum
  defuzzification := .centroid

theorem cautiousTip_strengths :
    cautiousTip.fuzzify (.ofList [(0, 3)]) = .ok [[3 / 5]] ∧
    cautiousTip.strengths [[3 / 5]] = [3 / 25, 1] ∧
    (∀ norms, IsDegree (danglingCondition.degree norms [[(3 / 5 : ℚ)]])) ∧
    (∀ strength ∈ cautiousTip.strengths [[3 / 5]],
      IsDegree strength ∧ clampUnit strength = strength) ∧
    cautiousTip.implicate [3 / 25, 1] =
      [cautiousTip.shapedBy cautiousRule (3 / 25),
        cautiousTip.shapedBy danglingRule 1] := by
  have memberships_eq : cautiousTip.memberships (.ofList [(0, 3)]) = [[3 / 5]] := by
    decide +kernel
  have accepted : cautiousTip.validate (.ofList [(0, 3)]) = .ok () :=
    Outcome.eq_ok_of_isOk (by decide +kernel)
  have fuzzified : cautiousTip.fuzzify (.ofList [(0, 3)]) = .ok [[3 / 5]] := by
    rw [RuleBase.fuzzify, accepted, memberships_eq]
    rfl
  have cautious_eq : cautiousTip.strength [[3 / 5]] cautiousRule = 3 / 25 := by decide +kernel
  have dangling_eq : cautiousTip.strength [[3 / 5]] danglingRule = 1 := by decide +kernel
  have strengths_eq : cautiousTip.strengths [[3 / 5]] = [3 / 25, 1] :=
    congrArg₂ (fun first second => [first, second]) cautious_eq dangling_eq
  have weighted : (Rule.ofStatement cautiousRule.toStatement).withWeight (1 / 3) =
      .ok cautiousRule := if_pos (by decide +kernel)
  have built : ∀ rule ∈ cautiousTip.rules, rule.Built := by
    simp only [cautiousTip, List.forall_mem_cons]
    exact ⟨.withWeight (.ofStatement _) weighted, .ofStatement _, List.forall_mem_nil _⟩
  obtain ⟨conditions, strengths, implied⟩ := strengths_stay_degrees Elementary.rational
    Elementary.rational_bounded cautiousTip.toRuleBase _ _ fuzzified
  refine ⟨fuzzified, strengths_eq, fun norms => conditions norms danglingCondition,
    strengths cautiousTip.toRuleBase built, ?_⟩
  rw [← strengths_eq, implied cautiousTip built, ← cautious_eq, ← dangling_eq]
  rfl

end FuzzyControl
