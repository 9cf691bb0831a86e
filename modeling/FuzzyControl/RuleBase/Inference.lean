import FuzzyControl.KeyMap
import FuzzyControl.RuleBase

/-!
# Inference

Input values are checked against the domains of the inputs, turned into degrees of
terms, and into the strength with which every rule fires.
-/

namespace FuzzyControl

namespace RuleBase

variable {α ω : Type} [Scalar α]

/-- Checks the values of inputs in order; the first of them has the given key. -/
def checkValues (values : KeyMap α) :
    Nat → List (LinguisticVariable α) → Except (Error α) Unit
  | _, [] => .ok ()
  | key, input :: rest =>
      match values.get? key with
      | none => .error (.missingInput input.name)
      | some value =>
          if input.contains value then checkValues values (key + 1) rest
          else .error (.outOfRange input.name value input.low input.high)

def validate (self : RuleBase α ω) (values : KeyMap α) : Except (Error α) Unit :=
  if values.size = self.inputs.length then checkValues values 0 self.inputs
  else .error (.inputCount self.inputs.length values.size)

/-- The degrees of all terms at the given values; an absent value counts as zero. -/
def memberships (self : RuleBase α ω) (values : KeyMap α) : Memberships α :=
  self.inputs.zipIdx.map fun entry => entry.1.fuzzify ((values.get? entry.2).getD 0)

def fuzzify (self : RuleBase α ω) (values : KeyMap α) : Except (Error α) (Memberships α) := do
  self.validate values
  .ok (self.memberships values)

def strength (self : RuleBase α ω) (memberships : Memberships α) (rule : Rule α) : α :=
  rule.condition.degree self.norms memberships * rule.weight

def strengths (self : RuleBase α ω) (memberships : Memberships α) : List α :=
  self.rules.map (self.strength memberships)

def checkRules (self : RuleBase α ω) : Except (Error α) Unit :=
  if self.rules.isEmpty then .error .noRules else .ok ()

/-- What the rules contribute to one output, in rule order. -/
def concludingOn {β : Type} (self : RuleBase α ω) (output : Nat) (contributions : List β) :
    List (Rule α × β) :=
  (self.rules.zip contributions).filter (·.1.conclusion.output == output)

end RuleBase

end FuzzyControl
