import FuzzyControl.Link

/-!
# Operators

The operators of a controller are restricted choices of a link: what `and` and
`or` mean, how a rule implies its conclusion, and how conclusions are aggregated.
-/

namespace FuzzyControl

inductive Conjunction where
  | minimum
  | product
  | boundedProduct
  | drasticProduct
deriving DecidableEq, Repr

inductive Disjunction where
  | maximum
  | probabilisticSum
  | boundedSum
  | drasticSum
deriving DecidableEq, Repr

/-- How the strength of a rule acts on the concluded term. -/
inductive Implication where
  /-- Cuts the term off at the strength. -/
  | minimum
  /-- Scales the term by the strength. -/
  | product
deriving DecidableEq, Repr

/-- How the implied sets of one output are combined. -/
inductive Aggregation where
  | maximum
  /-- The probabilistic sum, folded pairwise. -/
  | sum
deriving DecidableEq, Repr

namespace Conjunction

def link : Conjunction → Link
  | .minimum => .minimum
  | .product => .product
  | .boundedProduct => .boundedProduct
  | .drasticProduct => .drasticProduct

end Conjunction

namespace Disjunction

def link : Disjunction → Link
  | .maximum => .maximum
  | .probabilisticSum => .probabilisticSum
  | .boundedSum => .boundedSum
  | .drasticSum => .drasticSum

end Disjunction

namespace Implication

def link : Implication → Link
  | .minimum => .minimum
  | .product => .product

end Implication

namespace Aggregation

def link : Aggregation → Link
  | .maximum => .maximum
  | .sum => .probabilisticSum

end Aggregation

instance : Inhabited Conjunction := ⟨.minimum⟩
instance : Inhabited Disjunction := ⟨.maximum⟩
instance : Inhabited Implication := ⟨.minimum⟩
instance : Inhabited Aggregation := ⟨.maximum⟩

instance : Method Conjunction where
  kind := "and"
  all := [.minimum, .product, .boundedProduct, .drasticProduct]
  name method := Method.name method.link
  aliases method := Method.aliases method.link

instance : Method Disjunction where
  kind := "or"
  all := [.maximum, .probabilisticSum, .boundedSum, .drasticSum]
  name method := Method.name method.link
  aliases
    | .maximum => []
    | .probabilisticSum => ["prob_or", "prob"]
    | .boundedSum => ["bounded_sum"]
    | .drasticSum => ["drastic_sum"]

instance : Method Implication where
  kind := "implication"
  all := [.minimum, .product]
  name method := Method.name method.link
  aliases method := Method.aliases method.link

instance : Method Aggregation where
  kind := "aggregation"
  all := [.maximum, .sum]
  name
    | .maximum => "max"
    | .sum => "sum"
  aliases
    | .maximum => []
    | .sum => ["probor"]

end FuzzyControl
