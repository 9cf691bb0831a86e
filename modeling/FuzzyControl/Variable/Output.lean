import FuzzyControl.Variable.Affine
import FuzzyControl.Variable.Linguistic

/-!
# Output variables

What a rule base needs of its outputs: the names that rules conclude on, and the
inputs that the values of an output depend on.
-/

namespace FuzzyControl

/-- A variable that rules may conclude on. -/
class OutputVariable (ω : Type) where
  signature : ω → Signature
  /-- The keys of the inputs that the values depend on. -/
  referenced : ω → List Nat

namespace OutputVariable

variable {ω : Type} [OutputVariable ω]

def name (output : ω) : String :=
  (signature output).name

/-- Values are counted by their names, of which every value has one. -/
def valueCount (output : ω) : Nat :=
  (signature output).values.length

end OutputVariable

instance {α : Type} [Scalar α] : OutputVariable (LinguisticVariable α) where
  signature := LinguisticVariable.signature
  referenced _ := []

instance {α : Type} : OutputVariable (AffineVariable α) where
  signature := AffineVariable.signature
  referenced := AffineVariable.referenced

/-- A bare signature serves as an output that has names only. -/
instance : OutputVariable Signature where
  signature := id
  referenced _ := []

end FuzzyControl
