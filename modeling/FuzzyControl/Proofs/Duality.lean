import Mathlib.Algebra.Order.Field.Basic
import Mathlib.Algebra.Order.Group.MinMax
import Mathlib.Tactic.Ring
import FuzzyControl.Condition.NormalForm
import FuzzyControl.Proofs.RuleText
import FuzzyControl.RuleBase.Inference
import FuzzyControl.Scalar.Rational

/-!
# De Morgan duality

If the meanings of the connectives are dual to each other, then a negated group has the
degree of the other connective over the negated members.  Negations of groups may then be
pushed down to the leaves without a change of any degree.
-/

namespace FuzzyControl

/-! ## Dual links -/

def Link.dual : Link → Link
  | .minimum => .maximum
  | .product => .probabilisticSum
  | .boundedProduct => .boundedSum
  | .drasticProduct => .drasticSum
  | .maximum => .minimum
  | .probabilisticSum => .product
  | .boundedSum => .boundedProduct
  | .drasticSum => .drasticProduct

def Conjunction.dual : Conjunction → Disjunction
  | .minimum => .maximum
  | .product => .probabilisticSum
  | .boundedProduct => .boundedSum
  | .drasticProduct => .drasticSum

theorem Link.dual_dual (link : Link) : link.dual.dual = link := by
  cases link <;> rfl

theorem Conjunction.link_dual (conjunction : Conjunction) :
    conjunction.dual.link = conjunction.link.dual := by
  cases conjunction <;> rfl

/-- Every link is one of the four conjunctive links or the dual of one. -/
theorem Link.exists_conjunction (link : Link) :
    ∃ conjunction : Conjunction, link = conjunction.link ∨ link = conjunction.link.dual := by
  cases link with
  | minimum => exact ⟨.minimum, .inl rfl⟩
  | product => exact ⟨.product, .inl rfl⟩
  | boundedProduct => exact ⟨.boundedProduct, .inl rfl⟩
  | drasticProduct => exact ⟨.drasticProduct, .inl rfl⟩
  | maximum => exact ⟨.minimum, .inr rfl⟩
  | probabilisticSum => exact ⟨.product, .inr rfl⟩
  | boundedSum => exact ⟨.boundedProduct, .inr rfl⟩
  | drasticSum => exact ⟨.drasticProduct, .inr rfl⟩

namespace Norms

def IsDual (norms : Norms) : Prop :=
  norms.disjunction = norms.conjunction.dual

instance (norms : Norms) : Decidable norms.IsDual :=
  inferInstanceAs (Decidable (_ = _))

theorem IsDual.link_dual {norms : Norms} (dual : norms.IsDual) (connective : Connective) :
    norms.link connective.dual = (norms.link connective).dual := by
  have link_eq : norms.disjunction.link = norms.conjunction.link.dual := by
    rw [dual, Conjunction.link_dual]
  cases connective with
  | and => exact link_eq
  | or => exact (congrArg Link.dual link_eq).trans (Link.dual_dual _) |>.symm

end Norms

/-- Complements turn every link into its dual. -/
class LawfulComplement (α : Type) [Scalar α] : Prop where
  complement_complement : ∀ value : α, 1 - (1 - value) = value
  complement_apply : ∀ (link : Link) (first second : α),
    1 - link.apply first second = link.dual.apply (1 - first) (1 - second)

open LawfulComplement

namespace Elementary

variable {K : Type} [Field K] [LinearOrder K] [IsStrictOrderedRing K] (functions : Elementary K)

theorem complement_conjunction (conjunction : Conjunction) (first second : K) :
    letI := functions.scalar
    1 - conjunction.link.apply first second =
      conjunction.link.dual.apply (1 - first) (1 - second) := by
  cases conjunction with
  | minimum =>
      simp only [Conjunction.link, Link.dual, Link.apply, functions.smaller_eq_min,
        functions.larger_eq_max]
      exact (max_sub_sub_left 1 first second).symm
  | product =>
      simp only [Conjunction.link, Link.dual, Link.apply]
      ring
  | boundedProduct =>
      have sum_eq : 1 - first + (1 - second) = 1 - (first + second - 1) := by ring
      simp only [Conjunction.link, Link.dual, Link.apply, functions.smaller_eq_min,
        functions.larger_eq_max, sum_eq]
      have dual_eq := min_sub_sub_left 1 0 (first + second - 1)
      rw [sub_zero] at dual_eq
      exact dual_eq.symm
  | drasticProduct =>
      -- a complement is zero just where the degree is one, so both choose the same branch
      have zero_iff (degree : K) : 1 - degree = 0 ↔ degree = 1 := sub_eq_zero.trans eq_comm
      simp only [Conjunction.link, Link.dual, Link.apply, beq_iff_eq, zero_iff]
      split
      · rfl
      · split
        · rfl
        · exact sub_zero 1

theorem complement_apply (link : Link) (first second : K) :
    letI := functions.scalar
    1 - link.apply first second = link.dual.apply (1 - first) (1 - second) := by
  let := functions.scalar
  obtain ⟨conjunction, rfl | rfl⟩ := link.exists_conjunction
  · exact functions.complement_conjunction conjunction first second
  · have dual_eq := functions.complement_conjunction conjunction (1 - first) (1 - second)
    rw [sub_sub_cancel, sub_sub_cancel] at dual_eq
    rw [Link.dual_dual, ← dual_eq, sub_sub_cancel]

/-- The dual of a link is the link between complements. -/
theorem dual_apply (link : Link) (first second : K) :
    letI := functions.scalar
    link.dual.apply first second = 1 - link.apply (1 - first) (1 - second) := by
  rw [functions.complement_apply, sub_sub_cancel, sub_sub_cancel]

/-- In exact arithmetic complements are lawful, whatever the functions return. -/
theorem lawfulComplement :
    letI := functions.scalar
    LawfulComplement K :=
  letI := functions.scalar
  { complement_complement := sub_sub_cancel 1
    complement_apply := functions.complement_apply }

end Elementary

/-! ## Folds -/

section Fold

variable {α : Type} [Scalar α] [LawfulComplement α]

/-- Without degrees both folds are zero, so at least one degree is asked for. -/
theorem Link.complement_fold (link : Link) {degrees : List α} (nonempty : degrees ≠ []) :
    1 - link.fold degrees = link.dual.fold (degrees.map (1 - ·)) := by
  cases degrees with
  | nil => exact absurd rfl nonempty
  | cons first rest =>
      clear nonempty
      simp only [fold, List.map_cons]
      induction rest generalizing first with
      | nil => rfl
      | cons second rest ih =>
          rw [List.foldl_cons, ih, complement_apply, List.map_cons, List.foldl_cons]

omit [LawfulComplement α] in
theorem map_complementIf_false (degrees : List α) :
    degrees.map (complementIf false) = degrees :=
  List.map_id' degrees

theorem complementIf_complementIf (outer inner : Bool) (degree : α) :
    complementIf outer (complementIf inner degree) = complementIf (inner ^^ outer) degree := by
  cases outer with
  | false => rw [Bool.xor_false]; rfl
  | true =>
      cases inner with
      | false => rfl
      | true => exact complement_complement degree

/-- A negation may be drawn into a fold if it swaps the connective. -/
theorem Norms.IsDual.complementIf_fold {norms : Norms} (dual : norms.IsDual) (negated : Bool)
    (connective : Connective) {degrees : List α} (nonempty : degrees ≠ []) :
    complementIf negated ((norms.link connective).fold degrees) =
      (norms.link (connective.dualIf negated)).fold (degrees.map (complementIf negated)) := by
  cases negated with
  | false => rw [map_complementIf_false]; rfl
  | true =>
      have dual_eq : norms.link (connective.dualIf true) = (norms.link connective).dual :=
        dual.link_dual connective
      rw [dual_eq]
      exact Link.complement_fold _ nonempty

end Fold

/-! ## Conditions -/

def Proposition.affirmed (proposition : Proposition) : Proposition :=
  { proposition with negated := false }

namespace Condition

section Degree

variable {α : Type} [Scalar α] {norms : Norms}

mutual

/-- A condition whose negation is pushed down has the degree of its negation. -/
theorem degree_pushNegation [LawfulComplement α] (dual : norms.IsDual)
    (memberships : Memberships α) (negated : Bool) (condition : Condition)
    (nonempty : condition.hasEmptyGroup = false) :
    (condition.pushNegation negated).degree norms memberships =
      complementIf negated (condition.degree norms memberships) := by
  match condition with
  | leaf proposition =>
      exact (complementIf_complementIf negated proposition.negated _).symm
  | group connective own children =>
      rw [hasEmptyGroup, Bool.or_eq_false_iff] at nonempty
      have some_child : degrees norms memberships children ≠ [] := by
        rw [degrees_eq_map]
        intro none_left
        rw [List.map_eq_nil_iff.1 none_left] at nonempty
        cases nonempty.1
      rw [pushNegation, degree, degree, complementIf_complementIf,
        dual.complementIf_fold _ connective some_child,
        degrees_pushNegations dual memberships (own ^^ negated) children nonempty.2]
      rfl

theorem degrees_pushNegations [LawfulComplement α] (dual : norms.IsDual)
    (memberships : Memberships α) (negated : Bool) (children : List Condition)
    (nonempty : anyEmptyGroup children = false) :
    degrees norms memberships (pushNegations negated children) =
      (degrees norms memberships children).map (complementIf negated) := by
  match children with
  | [] => rfl
  | child :: rest =>
      rw [anyEmptyGroup, Bool.or_eq_false_iff] at nonempty
      rw [pushNegations, degrees, degrees, List.map_cons,
        degree_pushNegation dual memberships negated child nonempty.1,
        degrees_pushNegations dual memberships negated rest nonempty.2]

end

end Degree

mutual

theorem hasEmptyGroup_pushNegation (negated : Bool) (condition : Condition) :
    (condition.pushNegation negated).hasEmptyGroup = condition.hasEmptyGroup := by
  match condition with
  | leaf proposition => rfl
  | group connective own children =>
      rw [pushNegation, hasEmptyGroup, hasEmptyGroup,
        anyEmptyGroup_pushNegations (own ^^ negated) children]
      cases children <;> rfl

theorem anyEmptyGroup_pushNegations (negated : Bool) (children : List Condition) :
    anyEmptyGroup (pushNegations negated children) = anyEmptyGroup children := by
  match children with
  | [] => rfl
  | child :: rest =>
      rw [pushNegations, anyEmptyGroup, anyEmptyGroup, hasEmptyGroup_pushNegation negated child,
        anyEmptyGroup_pushNegations negated rest]

end

mutual

/-- The same terms are mentioned in the same order and with the same hedges. -/
theorem propositions_pushNegation (negated : Bool) (condition : Condition) :
    (condition.pushNegation negated).propositions.map Proposition.affirmed =
      condition.propositions.map Proposition.affirmed := by
  match condition with
  | leaf proposition => rfl
  | group connective own children => exact propositionsOf_pushNegations (own ^^ negated) children

theorem propositionsOf_pushNegations (negated : Bool) (children : List Condition) :
    (propositionsOf (pushNegations negated children)).map Proposition.affirmed =
      (propositionsOf children).map Proposition.affirmed := by
  match children with
  | [] => rfl
  | child :: rest =>
      rw [pushNegations, propositionsOf, propositionsOf, List.map_append, List.map_append,
        propositions_pushNegation negated child, propositionsOf_pushNegations negated rest]

end

mutual

theorem isPositive_of_isBranching {condition : Condition}
    (branching : condition.isBranching = true) : condition.isPositive = true := by
  match condition with
  | leaf _ => rfl
  | group _ _ children =>
      simp only [isBranching, Bool.and_eq_true] at branching
      rw [isPositive, branching.1, allPositive_of_allBranching branching.2.2]
      rfl

theorem allPositive_of_allBranching {children : List Condition}
    (branching : allBranching children = true) : allPositive children = true := by
  match children with
  | [] => rfl
  | child :: rest =>
      simp only [allBranching, Bool.and_eq_true] at branching
      rw [allPositive, isPositive_of_isBranching branching.1,
        allPositive_of_allBranching branching.2]
      rfl

end

end Condition

/-! ## Rules -/

/-- Texts express no other conditions than those without negated groups. -/
theorem Grammar.Spells.isPositive {vocabulary : Vocabulary} {tokens : List String}
    {statement : Statement} (spelled : Spells vocabulary tokens statement) :
    statement.condition.isPositive = true := by
  cases spelled with
  | rule holds unambiguous nested concludes =>
      exact Condition.isPositive_of_isBranching holds.within.1

def Rule.normalForm {α : Type} (rule : Rule α) : Rule α :=
  { rule with condition := rule.condition.normalForm }

/-- A statement in normal form refers to the terms that it referred to before. -/
theorem Statement.Within.normalForm {vocabulary : Vocabulary} {statement : Statement}
    (within : statement.Within vocabulary) :
    Statement.Within vocabulary ⟨statement.condition.normalForm, statement.conclusion⟩ where
  nonempty := (Condition.hasEmptyGroup_pushNegation false _).trans within.nonempty
  premised proposition member := by
    have kept := List.mem_map_of_mem (f := Proposition.affirmed) member
    rw [Condition.normalForm, Condition.propositions_pushNegation] at kept
    obtain ⟨original, original_member, same⟩ := List.mem_map.1 kept
    obtain ⟨signature, declared, less⟩ := within.premised original original_member
    obtain ⟨input_eq, term_eq, -⟩ := Proposition.mk.inj same
    exact ⟨signature, input_eq ▸ declared, term_eq ▸ less⟩
  concluded := within.concluded

/--
In exact arithmetic and with dual connectives, the negation normal form of a condition has
the degree of the condition, whatever the memberships are.  So a rule that is accepted may be
replaced by one without negated groups, which is accepted as well and fires as strongly; and
texts read as rules without negated groups only.
-/
theorem degree_normalForm {K : Type} [Field K] [LinearOrder K] [IsStrictOrderedRing K]
    (functions : Elementary K) :
    letI := functions.scalar
    ∀ norms : Norms, norms.IsDual →
      (∀ (memberships : Memberships K) (condition : Condition), condition.hasEmptyGroup = false →
        condition.normalForm.isPositive = true ∧
        condition.normalForm.degree norms memberships = condition.degree norms memberships) ∧
      (∀ {ω : Type} [OutputVariable ω] (self accepting : RuleBase K ω) (rule : Rule K),
        self.norms = norms → self.addRule rule = .ok accepting →
          self.addRule rule.normalForm = .ok (self.push rule.normalForm) ∧
          rule.normalForm.condition.isPositive = true ∧
          ∀ memberships : Memberships K,
            self.strength memberships rule.normalForm = self.strength memberships rule) ∧
      (∀ {ω : Type} [OutputVariable ω] (self : RuleBase K ω) (text : String) (rule : Rule K),
        self.parse text = .ok rule → rule.condition.isPositive = true) := by
  let := functions.scalar
  have lawful := functions.lawfulComplement
  intro norms dual
  have degree_eq (memberships : Memberships K) {condition : Condition}
      (nonempty : condition.hasEmptyGroup = false) :
      condition.normalForm.degree norms memberships = condition.degree norms memberships :=
    condition.degree_pushNegation dual memberships false nonempty
  refine ⟨fun memberships condition nonempty =>
    ⟨condition.isPositive_normalForm, degree_eq memberships nonempty⟩, ?_,
    fun self text rule read => (RuleBase.spells_of_parse read).2.isPositive⟩
  rintro ω _ self accepting rule rfl accepts
  obtain ⟨within, -⟩ := RuleBase.addRule_eq_ok_iff.1 accepts
  refine ⟨RuleBase.addRule_eq_ok_iff.2 ⟨within.normalForm, rfl⟩,
    rule.condition.isPositive_normalForm, fun memberships => ?_⟩
  exact congrArg (· * rule.weight) (degree_eq memberships within.nonempty)

def drasticKitchen : RuleBase ℚ Signature where
  norms := ⟨.drasticProduct, .drasticSum⟩
  inputs := [⟨"food", 2, 8, by decide +kernel,
    [⟨"good", .triangular 2 6 8⟩, ⟨"warm", .triangular 2 5 8⟩, ⟨"cold", .constant 0⟩]⟩]
  outputs := [⟨"tip", ["low"]⟩]
  rules := []

/-- Not both good and, in turn, neither very warm nor cold. -/
def nestedNegations : Rule ℚ :=
  .ofStatement ⟨.group .and true [.leaf ⟨0, 0, false, none⟩,
    .group .or true [.leaf ⟨0, 1, false, some .very⟩, .leaf ⟨0, 2, false, none⟩]], ⟨0, 0, false⟩⟩

theorem nestedNegations_normalForm :
    nestedNegations.normalForm.condition = .group .or false [.leaf ⟨0, 0, true, none⟩,
      .group .or false [.leaf ⟨0, 1, false, some .very⟩, .leaf ⟨0, 2, false, none⟩]] ∧
    nestedNegations.normalForm.condition.degree ⟨.minimum, .maximum⟩ [[1 / 2, 2 / 3, (0 : ℚ)]] =
      nestedNegations.condition.degree ⟨.minimum, .maximum⟩ [[1 / 2, 2 / 3, 0]] ∧
    (drasticKitchen.memberships (.ofList [(0, 6)])) = [[1, 2 / 3, 0]] ∧
    drasticKitchen.strength [[1, 2 / 3, 0]] nestedNegations = 4 / 9 ∧
    drasticKitchen.strength [[1, 2 / 3, 0]] nestedNegations.normalForm = 4 / 9 ∧
    drasticKitchen.addRule nestedNegations.normalForm =
      .ok (drasticKitchen.push nestedNegations.normalForm) ∧
    ∃ rule, drasticKitchen.parse "if food is not good or food is very warm then tip is low" =
      .ok rule ∧ rule.condition.isPositive = true := by
  have accepts : drasticKitchen.addRule nestedNegations =
      .ok (drasticKitchen.push nestedNegations) := rfl
  have strength_eq : drasticKitchen.strength [[1, 2 / 3, 0]] nestedNegations = 4 / 9 := by
    decide +kernel
  have succeeds : (drasticKitchen.parse
      "if food is not good or food is very warm then tip is low").isOk = true := by
    decide +kernel
  obtain ⟨rule, read⟩ := Outcome.exists_of_isOk succeeds
  obtain ⟨same_degree, -, -⟩ :=
    degree_normalForm Elementary.rational ⟨.minimum, .maximum⟩ (by decide)
  obtain ⟨-, replaced, positive⟩ :=
    degree_normalForm Elementary.rational drasticKitchen.norms (by decide)
  obtain ⟨accepted, -, same_strength⟩ := replaced drasticKitchen _ nestedNegations rfl accepts
  exact ⟨rfl, (same_degree _ nestedNegations.condition rfl).2, by decide +kernel, strength_eq,
    (same_strength _).trans strength_eq, accepted, rule, read, positive _ _ _ read⟩

end FuzzyControl
