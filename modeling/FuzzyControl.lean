import FuzzyControl.Decimal.Positional
import FuzzyControl.Text.Token
import FuzzyControl.Scalar.Double
import FuzzyControl.Operator
import FuzzyControl.KeyMap
import FuzzyControl.Defuzzification
import FuzzyControl.Variable.Output
import FuzzyControl.Condition.Builder
import FuzzyControl.Condition.Degree
import FuzzyControl.Rule
import FuzzyControl.Language.Reading
import FuzzyControl.Mamdani
import FuzzyControl.Sugeno
import FuzzyControl.RuleBase.Operation
import FuzzyControl.Condition.NormalForm
import FuzzyControl.Language.Printer
import FuzzyControl.Scalar.Exact
import FuzzyControl.Proofs.Printing
import FuzzyControl.Proofs.Inference
import FuzzyControl.Proofs.Coefficient
import FuzzyControl.Proofs.Collision
import FuzzyControl.Proofs.Meaning
import FuzzyControl.Proofs.Extension
import FuzzyControl.Proofs.Fault
import FuzzyControl.Proofs.Clash
import FuzzyControl.Proofs.Degree
import FuzzyControl.Proofs.Pointwise
import FuzzyControl.Proofs.Independence
import FuzzyControl.Proofs.Arithmetic
import FuzzyControl.Scalar.Rational
import FuzzyControl.Proofs.Crisp
import FuzzyControl.Proofs.Mean
import FuzzyControl.Proofs.Firing
import FuzzyControl.Proofs.Validation
import FuzzyControl.Proofs.Mention
import FuzzyControl.Proofs.Strength
import FuzzyControl.Proofs.Duality
import FuzzyControl.Proofs.Monotone
import FuzzyControl.Proofs.Polarity
import FuzzyControl.Proofs.Leniency
import FuzzyControl.Text.Scanner
import FuzzyControl.Proofs.Layout
import FuzzyControl.Language.Checked
import FuzzyControl.Proofs.Scanning
import FuzzyControl.Proofs.Agreement
import FuzzyControl.Proofs.Balance
import FuzzyControl.Proofs.Totality
import FuzzyControl.Proofs.Nesting
import FuzzyControl.Proofs.Diagnosis
import FuzzyControl.Proofs.Nameable
import FuzzyControl.Proofs.Admission
import FuzzyControl.Proofs.Truth
import FuzzyControl.Proofs.Level
import FuzzyControl.Proofs.Mixture
import FuzzyControl.Proofs.Joining
import FuzzyControl.Proofs.ClosedForm
import FuzzyControl.Proofs.Reduction
import FuzzyControl.Proofs.UnitChange
import FuzzyControl.Proofs.PiecewiseLinear
import FuzzyControl.Proofs.Symmetry
import FuzzyControl.Proofs.Supremum
import FuzzyControl.Proofs.Aggregation
import FuzzyControl.Proofs.Acceptance
import FuzzyControl.Proofs.FuzzyNumber
import FuzzyControl.Proofs.Matching
import FuzzyControl.Proofs.Enclosure
import FuzzyControl.Proofs.Tiling
import FuzzyControl.Proofs.Sampling
