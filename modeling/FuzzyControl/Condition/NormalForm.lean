import FuzzyControl.Condition

/-!
# Negation normal form

Negations of groups are pushed down to the leaves.  Under an odd number of
negations the connectives swap and the negation of every leaf is toggled, so that
no group of the result is negated: the only conditions that rule texts express.
-/

namespace FuzzyControl

namespace Connective

def dual : Connective → Connective
  | .and => .or
  | .or => .and

def dualIf (negated : Bool) (connective : Connective) : Connective :=
  if negated then connective.dual else connective

end Connective

namespace Condition

mutual

/-- The condition, or its negation, without negated groups. -/
def pushNegation (negated : Bool) : Condition → Condition
  | leaf proposition => leaf { proposition with negated := proposition.negated ^^ negated }
  | group connective own children =>
      group (connective.dualIf (own ^^ negated)) false (pushNegations (own ^^ negated) children)

def pushNegations (negated : Bool) : List Condition → List Condition
  | [] => []
  | child :: rest => pushNegation negated child :: pushNegations negated rest

end

def normalForm (condition : Condition) : Condition :=
  condition.pushNegation false

mutual

def isPositive : Condition → Bool
  | leaf _ => true
  | group _ negated children => !negated && allPositive children

def allPositive : List Condition → Bool
  | [] => true
  | child :: rest => isPositive child && allPositive rest

end

mutual

/-- Pushing negations down leaves none on a group. -/
theorem isPositive_pushNegation (negated : Bool) :
    (condition : Condition) → (condition.pushNegation negated).isPositive = true
  | leaf _ => rfl
  | group _ own children => by
      simp [pushNegation, isPositive, allPositive_pushNegations (own ^^ negated) children]

theorem allPositive_pushNegations (negated : Bool) :
    (children : List Condition) → allPositive (pushNegations negated children) = true
  | [] => rfl
  | child :: rest => by
      simp [pushNegations, allPositive, isPositive_pushNegation negated child,
        allPositive_pushNegations negated rest]

end

theorem isPositive_normalForm (condition : Condition) : condition.normalForm.isPositive = true :=
  isPositive_pushNegation false condition

end Condition

end FuzzyControl
