import FuzzyControl.Scalar

/-!
# Hedges

A hedge is an adverb in front of a term; it reshapes the degree of the term.
-/

namespace FuzzyControl

/-- The adverbs of the rule language, from the weakest to the strongest. -/
inductive Hedge where
  | slightly
  | somewhat
  | very
  | extremely
deriving DecidableEq, Repr

namespace Hedge

def all : List Hedge :=
  [.slightly, .somewhat, .very, .extremely]

def word : Hedge → String
  | .slightly => "slightly"
  | .somewhat => "somewhat"
  | .very => "very"
  | .extremely => "extremely"

def ofWord? (text : String) : Option Hedge :=
  all.find? (·.word == text)

/-- Every hedge is read back from its word. -/
theorem ofWord?_word (hedge : Hedge) : ofWord? hedge.word = some hedge := by
  cases hedge <;> decide

/-- Weak hedges take a root of the degree and strong ones a power. -/
def apply {α : Type} [Scalar α] (hedge : Hedge) (degree : α) : α :=
  match hedge with
  | .slightly => Scalar.cbrt degree
  | .somewhat => Scalar.sqrt degree
  | .very => degree * degree
  | .extremely => degree * degree * degree

end Hedge

end FuzzyControl
