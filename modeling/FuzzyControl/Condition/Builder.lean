import FuzzyControl.Condition

/-!
# Building conditions

Conditions are put together without text: a proposition is negated and hedged,
and conditions are negated and joined.
-/

namespace FuzzyControl

namespace Proposition

def is (input term : Nat) : Proposition :=
  { input := input, term := term }

def negate (proposition : Proposition) : Proposition :=
  { proposition with negated := !proposition.negated }

/-- Puts a hedge in front of the term, in place of any other. -/
def hedged (proposition : Proposition) (hedge : Hedge) : Proposition :=
  { proposition with hedge := some hedge }

theorem negate_negate (proposition : Proposition) : proposition.negate.negate = proposition := by
  simp [negate]

end Proposition

namespace Condition

def negate : Condition → Condition
  | leaf proposition => leaf proposition.negate
  | group connective negated children => group connective (!negated) children

theorem negate_negate (condition : Condition) : condition.negate.negate = condition := by
  cases condition <;> simp [negate, Proposition.negate_negate]

/-- Extends a group of the same connective that is not negated, or makes a group of two. -/
def join (connective : Connective) (first second : Condition) : Condition :=
  match first with
  | group own false children =>
      if own = connective then group own false (children ++ [second])
      else group connective false [first, second]
  | _ => group connective false [first, second]

def both (first second : Condition) : Condition :=
  join .and first second

def either (first second : Condition) : Condition :=
  join .or first second

theorem propositions_join (connective : Connective) (first second : Condition) :
    (join connective first second).propositions = first.propositions ++ second.propositions := by
  unfold join
  split
  · split <;> simp [propositions, propositionsOf_eq_flatMap]
  · simp [propositions, propositionsOf_eq_flatMap]

end Condition

end FuzzyControl
