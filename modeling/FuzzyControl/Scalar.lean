/-!
# Scalars

Degrees of membership, abscissas and crisp values are scalars.  Only operations
are assumed of them here and no laws, so one definition both runs on doubles and
is reasoned about in an ordered field.
-/

namespace FuzzyControl

/-- The operations that inference uses on numbers. -/
class Scalar (α : Type) extends
    Zero α, One α, NatCast α, Add α, Sub α, Mul α, Div α, Neg α, LT α, LE α, BEq α where
  decidableLT : DecidableLT α
  decidableLE : DecidableLE α
  sqrt : α → α
  cbrt : α → α
  exp : α → α
  posInf : α
  negInf : α
  /-- A total order on all values, used to sort abscissas. -/
  precedes : α → α → Bool

attribute [reducible, instance] Scalar.decidableLT Scalar.decidableLE

namespace Scalar

variable {α : Type} [Scalar α]

/-- A number equals itself; an undefined result does not. -/
def isNumber (value : α) : Bool :=
  value == value

/-- The greater of two values: the second on a tie, and the number if only one is a number. -/
def larger (first second : α) : α :=
  if second < first then first
  else if isNumber second then second
  else first

def smaller (first second : α) : α :=
  if first < second then first
  else if isNumber second then second
  else first

def clampUnit (value : α) : α :=
  if value < 0 then 0
  else if 1 < value then 1
  else value

/-- The degree that a computed value stands for: undefined counts as no membership. -/
def toDegree (value : α) : α :=
  if isNumber value then clampUnit value else 0

def IsDegree (value : α) : Prop :=
  0 ≤ value ∧ value ≤ 1

instance (value : α) : Decidable (IsDegree value) :=
  inferInstanceAs (Decidable (_ ∧ _))

def square (value : α) : α :=
  value * value

def total (values : List α) : α :=
  values.foldl (· + ·) 0

end Scalar

end FuzzyControl
