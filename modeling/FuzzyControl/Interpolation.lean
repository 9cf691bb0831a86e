import FuzzyControl.Scalar

/-!
# Linear interpolation

The piecewise linear function through points in ascending order of abscissas,
constant to the left of the first point and to the right of the last one.
-/

namespace FuzzyControl

namespace Interpolation

variable {α : Type} [Scalar α]

/-- The line through two points; above a single abscissa the second point counts. -/
def between (left right : α × α) (x : α) : α :=
  if right.1 == left.1 then right.2
  else left.2 + (x - left.1) * (right.2 - left.2) / (right.1 - left.1)

def inSegments (outside x : α) : List (α × α) → α
  | left :: right :: rest =>
      if left.1 ≤ x ∧ x ≤ right.1 then between left right x
      else inSegments outside x (right :: rest)
  | _ => outside

/-- The value at `x` of the function through the points; zero if there are none. -/
def value (x : α) : List (α × α) → α
  | [] => 0
  | first :: rest =>
      let last := rest.getLast?.getD first
      if x ≤ first.1 then first.2
      else if last.1 ≤ x then last.2
      else inSegments last.2 x (first :: rest)

end Interpolation

end FuzzyControl
