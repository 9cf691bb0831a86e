import FuzzyControl.FuzzySet
import FuzzyControl.Grid

/-!
# Defuzzification

A sampled fuzzy set is reduced to one crisp value.  Samples are pairs of an
abscissa and a degree; a set without membership at any sample reduces to zero.
-/

namespace FuzzyControl

inductive Defuzzification where
  | centroid
  /-- The abscissa at which half of the membership is reached. -/
  | bisector
  | meanOfMaxima
  | largestOfMaxima
  | smallestOfMaxima
deriving DecidableEq, Repr

instance : Inhabited Defuzzification := ⟨.centroid⟩

instance : Method Defuzzification where
  kind := "defuzzification"
  all := [.centroid, .bisector, .meanOfMaxima, .largestOfMaxima, .smallestOfMaxima]
  name
    | .centroid => "cog"
    | .bisector => "boa"
    | .meanOfMaxima => "mom"
    | .largestOfMaxima => "lom"
    | .smallestOfMaxima => "som"
  aliases
    | .centroid => ["centroid"]
    | .bisector => ["bisector"]
    | _ => []

namespace Defuzzification

variable {α : Type} [Scalar α]

def sampleCount : Nat :=
  101

/-- The first abscissa at which the membership so far reaches `half`. -/
def crossing? (half : α) : α → List (α × α) → Option α
  | _, [] => none
  | sofar, sample :: rest =>
      if half ≤ sofar + sample.2 then some sample.1
      else crossing? half (sofar + sample.2) rest

def peak (samples : List (α × α)) : α :=
  (samples.map (·.2)).foldl Scalar.larger 0

def maxima (samples : List (α × α)) : List α :=
  (samples.filter (·.2 == peak samples)).map (·.1)

/-- Combines the numbers among some values, if there are any. -/
def choose? (prefer : α → α → α) (values : List α) : Option α :=
  match values.filter Scalar.isNumber with
  | [] => none
  | first :: rest => some (rest.foldl prefer first)

def mass (samples : List (α × α)) : α :=
  Scalar.total (samples.map (·.2))

def reduce (method : Defuzzification) (samples : List (α × α)) : α :=
  if mass samples == 0 then 0
  else
    match method with
    | .centroid => Scalar.total (samples.map fun sample => sample.1 * sample.2) / mass samples
    | .bisector =>
        (crossing? (mass samples / (1 + 1)) 0 samples).getD ((samples.getLast?.map (·.1)).getD 0)
    | .meanOfMaxima =>
        Scalar.total (maxima samples) / Scalar.total ((maxima samples).map fun _ => 1)
    | .largestOfMaxima => (choose? Scalar.larger (maxima samples)).getD Scalar.negInf
    | .smallestOfMaxima => (choose? Scalar.smaller (maxima samples)).getD Scalar.posInf

def samples (set : FuzzySet α) (low high : α) : List (α × α) :=
  (Grid.spanning low high sampleCount).rest.map fun x => (x, set.degree x)

def crisp (method : Defuzzification) (set : FuzzySet α) (low high : α) : α :=
  method.reduce (samples set low high)

end Defuzzification

end FuzzyControl
