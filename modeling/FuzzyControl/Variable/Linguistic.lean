import FuzzyControl.FuzzySet
import FuzzyControl.Language.Name
import FuzzyControl.Language.Signature

/-!
# Linguistic variables

A linguistic variable is a bounded numeric domain that is described by terms, each
of them a named fuzzy set.
-/

namespace FuzzyControl

structure Term (α : Type) where
  name : String
  set : FuzzySet α

/-- A domain described by terms.  Rules refer to a term by its index. -/
structure LinguisticVariable (α : Type) [Scalar α] where
  name : String
  low : α
  high : α
  low_lt_high : low < high
  terms : List (Term α)

namespace LinguisticVariable

variable {α : Type} [Scalar α]

def declare (name : String) (low high : α) : Except (Error α) (LinguisticVariable α) := do
  let name ← Error.ofLanguage (checkName name)
  if ordered : low < high then .ok ⟨name, low, high, ordered, []⟩
  else .error (.invalidDomain low high)

def termIndex? (self : LinguisticVariable α) (name : String) : Option Nat :=
  self.terms.findIdx? (·.name == name)

def termNamed? (self : LinguisticVariable α) (name : String) : Option (Term α) :=
  (self.termIndex? name).bind (self.terms[·]?)

def addTerm (self : LinguisticVariable α) (name : String) (set : FuzzySet α) :
    Except (Error α) (LinguisticVariable α) := do
  let name ← Error.ofLanguage (checkName name)
  if (self.termIndex? name).isSome then .error (.language (.duplicateTerm self.name name))
  else .ok { self with terms := self.terms ++ [⟨name, set⟩] }

def recalibrate (self : LinguisticVariable α) (index : Nat) (set : FuzzySet α) :
    LinguisticVariable α :=
  { self with terms := self.terms.modify index fun term => { term with set := set } }

inductive Adjustment (α : Type) where
  | addTerm (name : String) (set : FuzzySet α)
  | recalibrate (index : Nat) (set : FuzzySet α)

def adjust (self : LinguisticVariable α) : Adjustment α → Except (Error α) (LinguisticVariable α)
  | .addTerm name set => self.addTerm name set
  | .recalibrate index set => .ok (self.recalibrate index set)

def contains (self : LinguisticVariable α) (value : α) : Bool :=
  decide (self.low ≤ value) && decide (value ≤ self.high)

def fuzzify (self : LinguisticVariable α) (value : α) : List α :=
  self.terms.map fun term => term.set.degree value

def signature (self : LinguisticVariable α) : Signature :=
  ⟨self.name, self.terms.map (·.name)⟩

end LinguisticVariable

end FuzzyControl
