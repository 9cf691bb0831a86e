import FuzzyControl.Method
import FuzzyControl.Scalar

/-!
# Links

A link combines two degrees.  Four links are conjunctive and four disjunctive; a
sequence of degrees is folded pairwise from the left.
-/

namespace FuzzyControl

inductive Link where
  | minimum
  | product
  | boundedProduct
  | drasticProduct
  | maximum
  | probabilisticSum
  | boundedSum
  | drasticSum
deriving DecidableEq, Repr

namespace Link

variable {α : Type} [Scalar α]

def apply (link : Link) (first second : α) : α :=
  match link with
  | .minimum => Scalar.smaller first second
  | .product => first * second
  | .boundedProduct => Scalar.larger 0 (first + second - 1)
  | .drasticProduct =>
      if second == 1 then first
      else if first == 1 then second
      else 0
  | .maximum => Scalar.larger first second
  | .probabilisticSum => first + second - first * second
  | .boundedSum => Scalar.smaller 1 (first + second)
  | .drasticSum =>
      if second == 0 then first
      else if first == 0 then second
      else 1

/-- Folds degrees from the left; without degrees there is no membership. -/
def fold (link : Link) : List α → α
  | [] => 0
  | first :: rest => rest.foldl link.apply first

/-- One more degree is combined with the fold of those before it. -/
theorem fold_concat (link : Link) {degrees : List α} (nonempty : degrees ≠ []) (last : α) :
    link.fold (degrees ++ [last]) = link.apply (link.fold degrees) last := by
  cases degrees with
  | nil => exact absurd rfl nonempty
  | cons first rest => exact List.foldl_append

end Link

instance : Method Link where
  kind := "composition"
  all := [.minimum, .product, .boundedProduct, .drasticProduct,
    .maximum, .probabilisticSum, .boundedSum, .drasticSum]
  name
    | .minimum => "min"
    | .product => "prod"
    | .boundedProduct => "boundedprod"
    | .drasticProduct => "drasticprod"
    | .maximum => "max"
    | .probabilisticSum => "probor"
    | .boundedSum => "boundedsum"
    | .drasticSum => "drasticsum"
  aliases
    | .minimum => []
    | .product => ["product"]
    | .boundedProduct => ["bounded_prod"]
    | .drasticProduct => ["drastic_prod"]
    | .maximum => []
    | .probabilisticSum => ["prob_or", "sum"]
    | .boundedSum => ["bounded_sum"]
    | .drasticSum => ["drastic_sum"]

end FuzzyControl
