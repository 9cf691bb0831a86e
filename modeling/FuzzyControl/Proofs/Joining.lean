import Mathlib.Algebra.Order.Field.Basic
import FuzzyControl.Condition.Builder
import FuzzyControl.Proofs.Duality
import FuzzyControl.Proofs.Printing

/-!
# Conditions that are put together

Joining conditions links their degrees, whether the first one is extended or both become a
group of their own.  So the brackets of a text and the steps of a builder may lead to different
trees, but not to different degrees.
-/

namespace FuzzyControl

/-! ## Builders -/

namespace Condition

/-- What a condition brings into a group that it is the first part of. -/
def operands (connective : Connective) : Condition → List Condition
  | group own false children =>
      if own = connective then children else [group own false children]
  | whole => [whole]

/-- A condition is a group of its operands, or it is its only operand. -/
theorem operands_cases (connective : Connective) (condition : Condition) :
    condition = group connective false (condition.operands connective) ∨
      condition.operands connective = [condition] := by
  unfold operands
  split
  · split
    · rename_i same
      exact .inl (same ▸ rfl)
    · exact .inr rfl
  · exact .inr rfl

theorem operands_group (connective : Connective) (children : List Condition) :
    (group connective false children).operands connective = children :=
  if_pos rfl

theorem operands_ne_nil {connective : Connective} {condition : Condition}
    (filled : condition ≠ group connective false []) : condition.operands connective ≠ [] := by
  intro none_left
  rcases operands_cases connective condition with whole | lone
  · rw [none_left] at whole
    exact filled whole
  · rw [none_left] at lone
    cases lone

theorem join_eq (connective : Connective) (first second : Condition) :
    join connective first second =
      group connective false (first.operands connective ++ [second]) := by
  cases first with
  | leaf proposition => rfl
  | group own negated children =>
      cases negated with
      | true => rfl
      | false =>
          simp only [join, operands]
          split
          · rename_i same
            rw [same]
          · rfl

theorem join_join (connective : Connective) (first second third : Condition) :
    join connective (join connective first second) third =
      group connective false (first.operands connective ++ [second, third]) := by
  rw [join_eq, join_eq connective first second, operands_group, List.append_assoc]
  rfl

variable {α : Type} [Scalar α] {norms : Norms} {memberships : Memberships α}

/-- The operands of a condition are all that its degree is folded from. -/
theorem fold_operands (connective : Connective) (condition : Condition) :
    (norms.link connective).fold
        ((condition.operands connective).map (degree norms memberships)) =
      condition.degree norms memberships := by
  rcases operands_cases connective condition with whole | lone
  · have degree_eq : (group connective false (condition.operands connective)).degree norms
        memberships = (norms.link connective).fold
          (degrees norms memberships (condition.operands connective)) := rfl
    rw [← degrees_eq_map, ← degree_eq, ← whole]
  · rw [lone]
    rfl

/-- The order in which operands are folded stays as it is, so no law of the link is needed. -/
theorem degree_join {connective : Connective} {first : Condition}
    (filled : first ≠ group connective false []) (second : Condition) :
    (join connective first second).degree norms memberships =
      (norms.link connective).apply (first.degree norms memberships)
        (second.degree norms memberships) := by
  have some_operand : (first.operands connective).map (degree norms memberships) ≠ [] :=
    mt List.map_eq_nil_iff.1 (operands_ne_nil filled)
  have group_eq : (group connective false (first.operands connective ++ [second])).degree norms
      memberships = (norms.link connective).fold
        (degrees norms memberships (first.operands connective ++ [second])) := rfl
  rw [join_eq, group_eq, degrees_eq_map, List.map_append, List.map_singleton,
    Link.fold_concat _ some_operand, fold_operands]

theorem join_ne_empty (connective : Connective) (first second : Condition) :
    join connective first second ≠ group connective false [] := by
  rw [join_eq]
  intro same
  exact List.append_ne_nil_of_right_ne_nil _ (List.cons_ne_nil second []) (group.inj same).2.2

/-- A group that is nested at the left has the degree of the chain without it. -/
theorem degree_join_join {connective : Connective} {first : Condition}
    (filled : first ≠ group connective false []) (second third : Condition) :
    (join connective (join connective first second) third).degree norms memberships =
      (group connective false [group connective false [first, second], third]).degree norms
        memberships := by
  rw [degree_join (join_ne_empty connective first second), degree_join filled]
  rfl

/-- The trees are different: a chain has at least three operands. -/
theorem nested_ne_join_join {connective : Connective} {first : Condition}
    (filled : first ≠ group connective false []) (second third : Condition) :
    group connective false [group connective false [first, second], third] ≠
      join connective (join connective first second) third := by
  rw [join_join]
  intro same
  have length_eq := congrArg List.length (group.inj same).2.2
  have some_operand := List.length_pos_iff.2 (operands_ne_nil filled)
  rw [List.length_append] at length_eq
  simp only [List.length_cons, List.length_nil] at length_eq
  omega

theorem degree_negate [LawfulComplement α] (condition : Condition) :
    condition.negate.degree norms memberships = 1 - condition.degree norms memberships := by
  have complement_not (negated : Bool) (plain : α) :
      complementIf (!negated) plain = 1 - complementIf negated plain := by
    rw [← Bool.xor_true, ← complementIf_complementIf]
    rfl
  cases condition with
  | leaf proposition => exact complement_not proposition.negated _
  | group connective negated children => exact complement_not negated _

end Condition

/-! ## Texts -/

namespace Grammar

/-- The tokens of three operands, of which the first two stand in brackets. -/
def leftBracketed (connective : Connective) (first second third : List String) : List String :=
  Keyword.openBracket.text ::
      ((first ++ connective.keyword.text :: second) ++ [Keyword.closeBracket.text]) ++
    connective.keyword.text :: third

variable {vocabulary : Vocabulary} {first second third : List String} {a b c : Condition}

theorem whole_leftBracketed (connective : Connective) (spells_a : Operand vocabulary first a)
    (spells_b : Operand vocabulary second b) (spells_c : Operand vocabulary third c) :
    Whole vocabulary (leftBracketed connective first second third)
      (.group connective false [.group connective false [a, b], c]) :=
  .chain (.bracketed (.chain spells_a (.last spells_b))) (.last spells_c)

theorem Operand.filled (spelled : Operand vocabulary first a) (connective : Connective) :
    a ≠ .group connective false [] := by
  rintro rfl
  cases Condition.hasEmptyGroup_of_isBranching spelled.within.1

end Grammar

/-- A text with a premise and a conclusion that are spelled is read as the rule of both. -/
theorem RuleBase.parse_of_whole {α ω : Type} [Scalar α] [OutputVariable ω]
    (self : RuleBase α ω) {lexicon : Lexicon} (built : self.vocabulary.lexicon = .ok lexicon)
    {premise concluding : List String} {condition : Condition}
    {conclusion : Conclusion} (holds : Grammar.Whole self.vocabulary premise condition)
    (concludes : Grammar.Concluding self.vocabulary concluding conclusion)
    (nested : Grammar.NestedWithin maxNesting premise) {text : String}
    (cut : tokenize text =
      Keyword.ifWord.text :: (premise ++ Keyword.thenWord.text :: concluding)) :
    self.parse text = .ok (.ofStatement ⟨condition, conclusion⟩) := by
  obtain ⟨items, itemized, _⟩ := holds.itemized built (Grammar.nestedFrom_zero_iff.2 nested)
  refine parse_of_spells built ?_
  rw [cut]
  exact .rule holds (Grammar.thenWord_not_mem built itemized) nested concludes

/--
Joining conditions keeps their propositions in order, and links their degrees unless the first
one is an empty group that is extended.  Two negations cancel, and in exact arithmetic one
negation gives the complement.  So a text with brackets around its first two operands is read
as another tree than the chain that a builder makes of them, but as one of the same degree.
-/
theorem joining_composes :
    (∀ first second : Condition,
      (first.both second).propositions = first.propositions ++ second.propositions ∧
      (first.either second).propositions = first.propositions ++ second.propositions) ∧
    (∀ {α : Type} [Scalar α] (norms : Norms) (memberships : Memberships α)
        (first second : Condition),
      (first ≠ .group .and false [] →
        (first.both second).degree norms memberships =
          norms.conjunction.link.apply (first.degree norms memberships)
            (second.degree norms memberships)) ∧
      (first ≠ .group .or false [] →
        (first.either second).degree norms memberships =
          norms.disjunction.link.apply (first.degree norms memberships)
            (second.degree norms memberships))) ∧
    (∀ condition : Condition, condition.negate.negate = condition) ∧
    (∀ {K : Type} [Field K] [LinearOrder K] [IsStrictOrderedRing K] (functions : Elementary K),
      letI := functions.scalar
      ∀ (norms : Norms) (memberships : Memberships K) (condition : Condition),
        condition.negate.degree norms memberships = 1 - condition.degree norms memberships) ∧
    (∀ {α ω : Type} [Scalar α] [OutputVariable ω] (self : RuleBase α ω) {lexicon : Lexicon},
      self.vocabulary.lexicon = .ok lexicon →
      ∀ {connective : Connective} {first second third concluding : List String}
        {a b c : Condition} {conclusion : Conclusion} {text : String},
        Grammar.Operand self.vocabulary first a → Grammar.Operand self.vocabulary second b →
        Grammar.Operand self.vocabulary third c →
        Grammar.Concluding self.vocabulary concluding conclusion →
        Grammar.NestedWithin maxNesting (Grammar.leftBracketed connective first second third) →
        tokenize text = Keyword.ifWord.text ::
          (Grammar.leftBracketed connective first second third ++
            Keyword.thenWord.text :: concluding) →
        ∃ rule, self.parse text = .ok rule ∧
          rule.condition = .group connective false [.group connective false [a, b], c] ∧
          .join connective (.join connective a b) c =
            Condition.group connective false (a.operands connective ++ [b, c]) ∧
          rule.condition ≠ .join connective (.join connective a b) c ∧
          ∀ memberships : Memberships α, rule.condition.degree self.norms memberships =
            (Condition.join connective (.join connective a b) c).degree self.norms
              memberships) := by
  refine ⟨fun first second => ⟨Condition.propositions_join .and first second,
      Condition.propositions_join .or first second⟩,
    fun norms memberships first second => ⟨fun filled => Condition.degree_join filled second,
      fun filled => Condition.degree_join filled second⟩,
    Condition.negate_negate, fun functions => ?_, ?_⟩
  · let := functions.scalar
    have lawful := functions.lawfulComplement
    exact fun norms memberships condition => condition.degree_negate
  · intro α ω _ _ self lexicon built connective first second third concluding a b c conclusion
      text spells_a spells_b spells_c concludes nested cut
    have holds := Grammar.whole_leftBracketed connective spells_a spells_b spells_c
    have filled := spells_a.filled connective
    exact ⟨_, self.parse_of_whole built holds concludes nested cut, rfl,
      Condition.join_join connective a b c, Condition.nested_ne_join_join filled b c,
      fun memberships => (Condition.degree_join_join filled b c).symm⟩

def badAndGood : Condition :=
  .both (.leaf (.is 0 0)) (.leaf (.is 0 1))

def notVeryGood : Condition :=
  .leaf ((Proposition.is 0 1).hedged .very).negate

theorem badAndGood_joins :
    (badAndGood.both notVeryGood).degree ⟨.product, .maximum⟩ [[0.25, (0.75 : Float)]] =
      badAndGood.degree ⟨.product, .maximum⟩ [[0.25, 0.75]] *
        notVeryGood.degree ⟨.product, .maximum⟩ [[0.25, 0.75]] ∧
    ∃ rule, RuleBase.tipping.parse
        "if (food is bad and food is good) and food is not very good then tip is low" =
          .ok rule ∧
      rule.condition ≠ badAndGood.both notVeryGood ∧
      ∀ memberships : Memberships Float,
        rule.condition.degree RuleBase.tipping.norms memberships =
          (badAndGood.both notVeryGood).degree RuleBase.tipping.norms memberships := by
  obtain ⟨lexicon, built⟩ := RuleBase.tipping_lexicon
  obtain ⟨-, degrees, -, -, texts⟩ := joining_composes
  have filled : badAndGood ≠ .group .and false [] :=
    Condition.join_ne_empty .and (.leaf (.is 0 0)) _
  have cut : tokenize
      "if (food is bad and food is good) and food is not very good then tip is low" =
        Keyword.ifWord.text :: (Grammar.leftBracketed .and ["food", "is", "bad"]
            ["food", "is", "good"] ["food", "is", "not", "very", "good"] ++
          Keyword.thenWord.text :: ["tip", "is", "low"]) := by
    decide +kernel
  have nested : Grammar.NestedWithin maxNesting (Grammar.leftBracketed .and ["food", "is", "bad"]
      ["food", "is", "good"] ["food", "is", "not", "very", "good"]) := by
    intro before initial
    have opened := List.Sublist.count_le Keyword.openBracket.text initial.sublist
    have once : (Grammar.leftBracketed .and ["food", "is", "bad"] ["food", "is", "good"]
        ["food", "is", "not", "very", "good"]).count Keyword.openBracket.text = 1 := by
      decide
    unfold Grammar.openAfter maxNesting
    omega
  obtain ⟨rule, read, -, -, different, same_degree⟩ := texts RuleBase.tipping built
    (.leaf (@Grammar.Leaf.spelled _ 0 ⟨"food", ["bad", "good"]⟩ "bad" 0 false none rfl rfl))
    (.leaf (@Grammar.Leaf.spelled _ 0 ⟨"food", ["bad", "good"]⟩ "good" 1 false none rfl rfl))
    (.leaf (@Grammar.Leaf.spelled _ 0 ⟨"food", ["bad", "good"]⟩ "good" 1 true (some .very)
      rfl rfl))
    (@Grammar.Concluding.plain _ 0 ⟨"tip", ["low", "high"]⟩ "low" 0 rfl rfl) nested cut
  exact ⟨(degrees ⟨.product, .maximum⟩ [[0.25, 0.75]] badAndGood notVeryGood).1 filled,
    rule, read, different, same_degree⟩

end FuzzyControl
