import FuzzyControl.Condition
import FuzzyControl.Error
import FuzzyControl.Scalar

/-!
# Rules

A statement is what a rule text says: a condition and the value of an output that
is concluded from it.  A rule gives a statement a weight.
-/

namespace FuzzyControl

structure Conclusion where
  output : Nat
  value : Nat
  negated : Bool := false
deriving DecidableEq, Repr

structure Statement where
  condition : Condition
  conclusion : Conclusion
deriving Repr

structure Rule (α : Type) extends Statement where
  weight : α

namespace Rule

variable {α : Type} [Scalar α]

/-- The rule of full weight. -/
def ofStatement (statement : Statement) : Rule α :=
  { statement with weight := 1 }

theorem eq_ofStatement_iff {rule : Rule α} {statement : Statement} :
    rule = .ofStatement statement ↔
      rule.condition = statement.condition ∧ rule.conclusion = statement.conclusion ∧
        rule.weight = 1 := by
  constructor
  · rintro rfl
    exact ⟨rfl, rfl, rfl⟩
  · obtain ⟨⟨condition, conclusion⟩, weight⟩ := rule
    rintro ⟨rfl, rfl, rfl⟩
    rfl

def withWeight (rule : Rule α) (weight : α) : Except (Error α) (Rule α) :=
  if Scalar.IsDegree weight then .ok { rule with weight := weight }
  else .error (.invalidParameter (.weight weight))

end Rule

end FuzzyControl
