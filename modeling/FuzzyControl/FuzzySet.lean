import FuzzyControl.Interpolation
import FuzzyControl.Link

/-!
# Fuzzy sets

A fuzzy set gives every abscissa a degree of membership.  The functions named
`of…` check the parameters of a shape; a set that is put together without them
still has degrees in `[0, 1]`, because every degree is clamped.
-/

namespace FuzzyControl

inductive FuzzySet (α : Type) where
  | triangular (left peak right : α)
  | trapezoidal (left coreLeft coreRight right : α)
  | gaussian (center spread : α)
  | constant (value : α)
  /-- The pointwise fold of further sets. -/
  | composite (link : Link) (children : List (FuzzySet α))
  /-- Piecewise linear through points in ascending order. -/
  | pointwise (points : List (α × α))

namespace FuzzySet

variable {α : Type} [Scalar α]

def ofTriangle (left peak right : α) : Except (Error α) (FuzzySet α) :=
  if left ≤ peak ∧ peak ≤ right then .ok (.triangular left peak right)
  else .error (.invalidParameter (.corners [left, peak, right]))

def ofTrapezoid (left coreLeft coreRight right : α) : Except (Error α) (FuzzySet α) :=
  if left ≤ coreLeft ∧ coreLeft ≤ coreRight ∧ coreRight ≤ right then
    .ok (.trapezoidal left coreLeft coreRight right)
  else .error (.invalidParameter (.corners [left, coreLeft, coreRight, right]))

def ofGaussian (center spread : α) : Except (Error α) (FuzzySet α) :=
  if 0 < spread then .ok (.gaussian center spread)
  else .error (.invalidParameter (.spread spread))

def ofConstant (value : α) : Except (Error α) (FuzzySet α) :=
  if Scalar.IsDegree value then .ok (.constant value)
  else .error (.invalidParameter (.constant value))

/-- Whether a point has an abscissa and its ordinate is a degree. -/
def isPoint (point : α × α) : Bool :=
  Scalar.isNumber point.1 && decide (Scalar.IsDegree point.2)

/-- Sorts points by abscissa; points above one abscissa stay in their order. -/
def sortPoints (points : List (α × α)) : List (α × α) :=
  points.mergeSort fun first second => Scalar.precedes first.1 second.1

def ofPoints (points : List (α × α)) : Except (Error α) (FuzzySet α) :=
  match points.find? (!isPoint ·) with
  | some point => .error (.invalidParameter (.point point.1 point.2))
  | none => .ok (.pointwise (sortPoints points))

/-- The height of a triangle at `x`; the peak itself is one even above a vertical side. -/
def triangleAt (left peak right x : α) : α :=
  if x == peak then 1
  else if left < x ∧ x < peak then (x - left) / (peak - left)
  else if peak < x ∧ x < right then (right - x) / (right - peak)
  else 0

/-- The height of a trapezoid at `x`; the core is one even above vertical sides. -/
def trapezoidAt (left coreLeft coreRight right x : α) : α :=
  if coreLeft ≤ x ∧ x ≤ coreRight then 1
  else if left < x ∧ x < coreLeft then (x - left) / (coreLeft - left)
  else if coreRight < x ∧ x < right then (right - x) / (right - coreRight)
  else 0

def gaussianAt (center spread x : α) : α :=
  if x == center then 1
  else Scalar.exp (-Scalar.square (x - center) / ((2 : Nat) * Scalar.square spread))

mutual

def degree (x : α) : FuzzySet α → α
  | triangular left peak right => Scalar.toDegree (triangleAt left peak right x)
  | trapezoidal left coreLeft coreRight right =>
      Scalar.toDegree (trapezoidAt left coreLeft coreRight right x)
  | gaussian center spread => Scalar.toDegree (gaussianAt center spread x)
  | constant value => Scalar.toDegree value
  | composite link children => Scalar.toDegree (link.fold (degrees x children))
  | pointwise points => Scalar.toDegree (Interpolation.value x points)

def degrees (x : α) : List (FuzzySet α) → List α
  | [] => []
  | child :: rest => degree x child :: degrees x rest

end

theorem degrees_eq_map (x : α) (children : List (FuzzySet α)) :
    degrees x children = children.map (degree x) := by
  induction children with
  | nil => rfl
  | cons child rest ih => rw [degrees, ih, List.map_cons]

mutual

/-- An upper bound of the degrees of a set whose parameters were checked. -/
def supremum : FuzzySet α → α
  | triangular .. | trapezoidal .. | gaussian .. => 1
  | constant value => value
  | composite link children => link.fold (suprema children)
  | pointwise points => (points.map (·.2)).foldl Scalar.larger 0

def suprema : List (FuzzySet α) → List α
  | [] => []
  | child :: rest => supremum child :: suprema rest

end

theorem suprema_eq_map (children : List (FuzzySet α)) :
    suprema children = children.map supremum := by
  induction children with
  | nil => rfl
  | cons child rest ih => rw [suprema, ih, List.map_cons]

/-- The bell that stands for a triangle of positive width. -/
def toGaussian? : FuzzySet α → Option (FuzzySet α)
  | triangular left peak right =>
      if left < right then some (.gaussian peak ((right - left) / (5 : Nat))) else none
  | _ => none

end FuzzySet

end FuzzyControl
