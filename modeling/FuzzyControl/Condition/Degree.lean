import FuzzyControl.Condition
import FuzzyControl.Operator

/-!
# Degrees of conditions

The degree to which a condition holds, given the degree of every term of every
input.  A missing input or term counts as no membership.
-/

namespace FuzzyControl

structure Norms where
  conjunction : Conjunction
  disjunction : Disjunction
deriving DecidableEq, Repr

instance : Inhabited Norms := ⟨⟨default, default⟩⟩

def Norms.link (norms : Norms) : Connective → Link
  | .and => norms.conjunction.link
  | .or => norms.disjunction.link

/-- The degree of every term of every input: a row per input key, an entry per term index. -/
abbrev Memberships (α : Type) :=
  List (List α)

namespace Memberships

def degree? {α : Type} (memberships : Memberships α) (input term : Nat) : Option α :=
  memberships[input]?.bind (·[term]?)

end Memberships

variable {α : Type} [Scalar α]

def complementIf (negated : Bool) (degree : α) : α :=
  if negated then 1 - degree else degree

namespace Proposition

/-- The degree of a proposition: the hedge acts before the negation. -/
def degree (memberships : Memberships α) (proposition : Proposition) : α :=
  let plain := (memberships.degree? proposition.input proposition.term).getD 0
  let hedged :=
    match proposition.hedge with
    | some hedge => hedge.apply plain
    | none => plain
  complementIf proposition.negated hedged

end Proposition

namespace Condition

mutual

def degree (norms : Norms) (memberships : Memberships α) : Condition → α
  | leaf proposition => proposition.degree memberships
  | group connective negated children =>
      complementIf negated ((norms.link connective).fold (degrees norms memberships children))

def degrees (norms : Norms) (memberships : Memberships α) : List Condition → List α
  | [] => []
  | child :: rest => degree norms memberships child :: degrees norms memberships rest

end

theorem degrees_eq_map (norms : Norms) (memberships : Memberships α) (children : List Condition) :
    degrees norms memberships children = children.map (degree norms memberships) := by
  induction children with
  | nil => rfl
  | cons child rest ih => rw [degrees, ih, List.map_cons]

end Condition

end FuzzyControl
