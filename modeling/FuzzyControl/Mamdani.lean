import FuzzyControl.Defuzzification
import FuzzyControl.RuleBase.Inference

/-!
# Mamdani controllers

The rules of a Mamdani controller conclude on fuzzy sets.  Every rule shapes the
concluded set by its strength, the sets of one output are aggregated, and the
aggregated set is defuzzified.
-/

namespace FuzzyControl

structure Mamdani (α : Type) [Scalar α] extends RuleBase α (LinguisticVariable α) where
  implication : Implication
  aggregation : Aggregation
  defuzzification : Defuzzification

namespace Mamdani

variable {α : Type} [Scalar α]

def empty (norms : Norms) (implication : Implication) (aggregation : Aggregation)
    (defuzzification : Defuzzification) : Mamdani α :=
  ⟨.empty norms, implication, aggregation, defuzzification⟩

/-- The set that a conclusion names; nothing belongs to a missing one. -/
def concludedSet (self : Mamdani α) (conclusion : Conclusion) : FuzzySet α :=
  match self.outputs[conclusion.output]?.bind (·.terms[conclusion.value]?) with
  | some term => term.set
  | none => .constant 0

def implied (self : Mamdani α) (rule : Rule α) (strength : α) : FuzzySet α :=
  .composite self.implication.link
    [.constant (Scalar.clampUnit strength), self.concludedSet rule.conclusion]

def implicate (self : Mamdani α) (strengths : List α) : List (FuzzySet α) :=
  (self.rules.zip strengths).map fun entry => self.implied entry.1 entry.2

def aggregateOn (self : Mamdani α) (implied : List (FuzzySet α)) (output : Nat) : FuzzySet α :=
  .composite self.aggregation.link ((self.concludingOn output implied).map (·.2))

def aggregate (self : Mamdani α) (implied : List (FuzzySet α)) : KeyMap (FuzzySet α) :=
  .ofPositions ((List.range self.outputs.length).map (self.aggregateOn implied))

/-- The crisp value of every set that belongs to an output. -/
def defuzzify (self : Mamdani α) (aggregated : KeyMap (FuzzySet α)) : KeyMap α :=
  aggregated.filterMap fun key set =>
    self.outputs[key]?.map fun output => self.defuzzification.crisp set output.low output.high

def calculate (self : Mamdani α) (values : KeyMap α) : Except (Error α) (KeyMap α) := do
  self.checkRules
  let memberships ← self.fuzzify values
  .ok (self.defuzzify (self.aggregate (self.implicate (self.strengths memberships))))

end Mamdani

instance {α : Type} [Scalar α] : Inhabited (Mamdani α) :=
  ⟨.empty default default default default⟩

end FuzzyControl
