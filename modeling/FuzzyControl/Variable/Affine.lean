import FuzzyControl.KeyMap
import FuzzyControl.Language.Name
import FuzzyControl.Language.Signature
import FuzzyControl.Scalar

/-!
# Affine variables

The values of an affine output variable are named affine functions of the inputs.
-/

namespace FuzzyControl

/-- A constant plus a weighted sum of inputs. -/
structure AffineFunction (α : Type) where
  name : String
  coefficients : KeyMap α
  constant : α

/-- An output whose values are functions.  Rules refer to a function by its index. -/
structure AffineVariable (α : Type) where
  name : String
  functions : List (AffineFunction α)

namespace AffineFunction

variable {α : Type}

def declare (name : String) (coefficients : List (Nat × α)) (constant : α) :
    Except (Error α) (AffineFunction α) := do
  let name ← Error.ofLanguage (checkName name)
  .ok ⟨name, .ofList coefficients, constant⟩

variable [Scalar α]

/-- The coefficient of an input; zero if none is stored. -/
def coefficient (self : AffineFunction α) (input : Nat) : α :=
  (self.coefficients.get? input).getD 0

/-- Adds the weighted inputs to the constant in key order; an absent input counts as zero. -/
def value (self : AffineFunction α) (inputs : KeyMap α) : α :=
  self.coefficients.entries.foldl
    (fun sum entry => sum + entry.2 * (inputs.get? entry.1).getD 0) self.constant

end AffineFunction

namespace AffineVariable

variable {α : Type}

def declare (name : String) : Except (Error α) (AffineVariable α) := do
  let name ← Error.ofLanguage (checkName name)
  .ok ⟨name, []⟩

def functionIndex? (self : AffineVariable α) (name : String) : Option Nat :=
  self.functions.findIdx? (·.name == name)

def functionNamed? (self : AffineVariable α) (name : String) : Option (AffineFunction α) :=
  (self.functionIndex? name).bind (self.functions[·]?)

def addFunction (self : AffineVariable α) (function : AffineFunction α) :
    Except (Error α) (AffineVariable α) :=
  if (self.functionIndex? function.name).isSome then
    .error (.language (.duplicateTerm self.name function.name))
  else .ok { self with functions := self.functions ++ [function] }

def referenced (self : AffineVariable α) : List Nat :=
  self.functions.flatMap (·.coefficients.keys)

def values [Scalar α] (self : AffineVariable α) (inputs : KeyMap α) : List α :=
  self.functions.map (·.value inputs)

def signature (self : AffineVariable α) : Signature :=
  ⟨self.name, self.functions.map (·.name)⟩

end AffineVariable

end FuzzyControl
