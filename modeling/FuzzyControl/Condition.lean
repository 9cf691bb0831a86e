import FuzzyControl.Hedge

/-!
# Conditions

The premise of a rule is a tree.  Its leaves say that an input is a term, and its
groups join any number of conditions by one connective.
-/

namespace FuzzyControl

/-- The proposition `input is [not] [hedge] term`, by key and index. -/
structure Proposition where
  input : Nat
  term : Nat
  negated : Bool := false
  hedge : Option Hedge := none
deriving DecidableEq, Repr

inductive Connective where
  | and
  | or
deriving DecidableEq, Repr

inductive Condition where
  | leaf (proposition : Proposition)
  | group (connective : Connective) (negated : Bool) (children : List Condition)
deriving Repr

namespace Condition

mutual

def propositions : Condition → List Proposition
  | leaf proposition => [proposition]
  | group _ _ children => propositionsOf children

def propositionsOf : List Condition → List Proposition
  | [] => []
  | child :: rest => propositions child ++ propositionsOf rest

end

theorem propositionsOf_eq_flatMap (children : List Condition) :
    propositionsOf children = children.flatMap propositions := by
  induction children with
  | nil => rfl
  | cons child rest ih => rw [propositionsOf, ih, List.flatMap_cons]

mutual

/-- The height of the tree; a leaf has depth one. -/
def depth : Condition → Nat
  | leaf _ => 1
  | group _ _ children => 1 + deepest children

def deepest : List Condition → Nat
  | [] => 0
  | child :: rest => max (depth child) (deepest rest)

end

mutual

def hasEmptyGroup : Condition → Bool
  | leaf _ => false
  | group _ _ children => children.isEmpty || anyEmptyGroup children

def anyEmptyGroup : List Condition → Bool
  | [] => false
  | child :: rest => hasEmptyGroup child || anyEmptyGroup rest

end

end Condition

end FuzzyControl
