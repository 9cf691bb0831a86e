import FuzzyControl.RuleBase

/-!
# Operations on rule bases

A rule base grows by operations: variables are declared and adjusted in place,
rules are added and dropped, and the meaning of the connectives is chosen.  An
operation that fails leaves the rule base as it was.
-/

namespace FuzzyControl

/-- Outputs that are adjusted in place by commands of type `δ`. -/
class AdjustableOutput (α ω : Type) (δ : outParam Type) where
  adjust : ω → δ → Except (Error α) ω

instance {α : Type} [Scalar α] :
    AdjustableOutput α (LinguisticVariable α) (LinguisticVariable.Adjustment α) where
  adjust := LinguisticVariable.adjust

instance {α : Type} : AdjustableOutput α (AffineVariable α) (AffineFunction α) where
  adjust := AffineVariable.addFunction

instance {α : Type} : AdjustableOutput α Signature Empty where
  adjust _ command := nomatch command

inductive Operation (α ω δ : Type) [Scalar α] where
  | addInput (input : LinguisticVariable α)
  | addOutput (output : ω)
  | adjustInput (key : Nat) (command : LinguisticVariable.Adjustment α)
  | adjustOutput (key : Nat) (command : δ)
  | addRule (rule : Rule α)
  | addRuleText (text : String)
  | clearRules
  | setConjunction (conjunction : Conjunction)
  | setDisjunction (disjunction : Disjunction)

namespace RuleBase

variable {α ω δ : Type} [Scalar α]

/-- Adjusts an input in place; a key without an input has nothing to adjust. -/
def adjustInput (self : RuleBase α ω) (key : Nat) (command : LinguisticVariable.Adjustment α) :
    Except (Error α) (RuleBase α ω) :=
  match self.inputs[key]? with
  | none => .ok self
  | some input => do
      let adjusted ← input.adjust command
      .ok { self with inputs := self.inputs.set key adjusted }

def adjustOutput [AdjustableOutput α ω δ] (self : RuleBase α ω) (key : Nat) (command : δ) :
    Except (Error α) (RuleBase α ω) :=
  match self.outputs[key]? with
  | none => .ok self
  | some output => do
      let adjusted ← AdjustableOutput.adjust output command
      .ok { self with outputs := self.outputs.set key adjusted }

variable [OutputVariable ω] [AdjustableOutput α ω δ]

def apply (self : RuleBase α ω) : Operation α ω δ → Except (Error α) (RuleBase α ω)
  | .addInput input => self.addInput input
  | .addOutput output => self.addOutput output
  | .adjustInput key command => self.adjustInput key command
  | .adjustOutput key command => self.adjustOutput key command
  | .addRule rule => self.addRule rule
  | .addRuleText text => self.addRuleText text
  | .clearRules => .ok self.clearRules
  | .setConjunction conjunction => .ok (self.setConjunction conjunction)
  | .setDisjunction disjunction => .ok (self.setDisjunction disjunction)

/-- Carries out an operation, and keeps the rule base if it fails. -/
def perform (self : RuleBase α ω) (operation : Operation α ω δ) : RuleBase α ω :=
  match self.apply operation with
  | .ok changed => changed
  | .error _ => self

def performAll (self : RuleBase α ω) (operations : List (Operation α ω δ)) : RuleBase α ω :=
  operations.foldl perform self

end RuleBase

end FuzzyControl
