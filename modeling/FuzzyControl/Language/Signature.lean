/-!
# Signatures

What the rule language knows of a variable: its name and the names of its values.
-/

namespace FuzzyControl

/-- The name of a variable and the names of its values, by their index. -/
structure Signature where
  name : String
  values : List String
deriving DecidableEq, Repr

namespace Signature

def indexOf? (signature : Signature) (value : String) : Option Nat :=
  signature.values.findIdx? (· == value)

end Signature

/-- The variables that rules may mention.  A key is a position in one of the lists. -/
structure Vocabulary where
  inputs : List Signature
  outputs : List Signature
deriving DecidableEq, Repr

end FuzzyControl
