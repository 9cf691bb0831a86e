import FuzzyControl.RuleBase.Inference

/-!
# Sugeno controllers

The rules of a Sugeno controller conclude on affine functions of the inputs.  An
output is the mean of the concluded functions, weighted by the strengths of the
rules.
-/

namespace FuzzyControl

structure Sugeno (α : Type) [Scalar α] extends RuleBase α (AffineVariable α)

namespace Sugeno

variable {α : Type} [Scalar α]

def empty (norms : Norms) : Sugeno α :=
  ⟨.empty norms⟩

def functionValues (self : Sugeno α) (values : KeyMap α) : KeyMap (List α) :=
  .ofPositions (self.outputs.map (·.values values))

/-- The value of a concluded function; a missing one counts as zero. -/
def concludedValue (functionValues : KeyMap (List α)) (conclusion : Conclusion) : α :=
  ((functionValues.get? conclusion.output).bind (·[conclusion.value]?)).getD 0

/-- The mean of values by weights; zero if the weights have no sum. -/
def weightedMean (entries : List (α × α)) : α :=
  let numerator := Scalar.total (entries.map fun entry => entry.1 * entry.2)
  let denominator := Scalar.total (entries.map (·.2))
  if denominator == 0 then 0 else numerator / denominator

def combineOn (self : Sugeno α) (strengths : List α) (functionValues : KeyMap (List α))
    (output : Nat) : α :=
  weightedMean ((self.concludingOn output strengths).map fun entry =>
    (concludedValue functionValues entry.1.conclusion, entry.2))

def combine (self : Sugeno α) (strengths : List α) (functionValues : KeyMap (List α)) :
    KeyMap α :=
  .ofPositions ((List.range self.outputs.length).map (self.combineOn strengths functionValues))

def calculate (self : Sugeno α) (values : KeyMap α) : Except (Error α) (KeyMap α) := do
  self.checkRules
  let memberships ← self.fuzzify values
  .ok (self.combine (self.strengths memberships) (self.functionValues values))

end Sugeno

instance {α : Type} [Scalar α] : Inhabited (Sugeno α) :=
  ⟨.empty ⟨.product, .maximum⟩⟩

end FuzzyControl
