import FuzzyControl.Proofs.Reference
import FuzzyControl.RuleBase.Operation
import FuzzyControl.Scalar.Double

/-!
# Rule texts of a rule base

A rule base reads exactly the texts that spell a statement over its variables, and the
rule of such a text passes all checks that are made on rules from elsewhere.
-/

namespace FuzzyControl

namespace RuleBase

variable {α ω : Type} [Scalar α] [OutputVariable ω]

/-! ## Checks -/

theorem vocabulary_inputs (self : RuleBase α ω) (key : Nat) :
    self.vocabulary.inputs[key]? = self.inputs[key]?.map (·.signature) :=
  List.getElem?_map

theorem vocabulary_outputs (self : RuleBase α ω) (key : Nat) :
    self.vocabulary.outputs[key]? = self.outputs[key]?.map OutputVariable.signature :=
  List.getElem?_map

theorem propositionWithin_iff {self : RuleBase α ω} {proposition : Proposition} :
    proposition.Within self.vocabulary ↔
      ∃ input, self.inputs[proposition.input]? = some input ∧
        proposition.term < input.terms.length := by
  unfold Proposition.Within
  rw [vocabulary_inputs]
  cases self.inputs[proposition.input]? with
  | none => simp
  | some input => simp [LinguisticVariable.signature]

theorem conclusionWithin_iff {self : RuleBase α ω} {conclusion : Conclusion} :
    conclusion.Within self.vocabulary ↔
      ∃ output, self.outputs[conclusion.output]? = some output ∧
        conclusion.value < OutputVariable.valueCount output := by
  unfold Conclusion.Within
  rw [vocabulary_outputs]
  cases self.outputs[conclusion.output]? with
  | none => simp
  | some output => simp [OutputVariable.valueCount]

theorem checkProposition_eq_ok_iff {self : RuleBase α ω} {proposition : Proposition} :
    self.checkProposition proposition = .ok () ↔ proposition.Within self.vocabulary := by
  rw [propositionWithin_iff, checkProposition]
  cases self.inputs[proposition.input]? with
  | none => simp
  | some input => simp

theorem checkPropositions_eq_ok_iff {self : RuleBase α ω} {propositions : List Proposition} :
    self.checkPropositions propositions = .ok () ↔
      ∀ proposition ∈ propositions, proposition.Within self.vocabulary := by
  induction propositions with
  | nil => simp [checkPropositions]
  | cons proposition rest ih =>
      rw [checkPropositions, Outcome.check_bind_eq_ok_iff, List.forall_mem_cons, ih,
        checkProposition_eq_ok_iff]

theorem checkConclusion_eq_ok_iff {self : RuleBase α ω} {conclusion : Conclusion} :
    self.checkConclusion conclusion = .ok () ↔ conclusion.Within self.vocabulary := by
  rw [conclusionWithin_iff, checkConclusion]
  cases self.outputs[conclusion.output]? with
  | none => simp
  | some output => simp

/-- A statement passes the checks exactly if all its references exist. -/
theorem checkStatement_eq_ok_iff {self : RuleBase α ω} {statement : Statement} :
    self.checkStatement statement = .ok () ↔ statement.Within self.vocabulary := by
  unfold checkStatement
  constructor
  · intro checked
    split at checked
    · cases checked
    · rename_i nonempty
      obtain ⟨premised, concluded⟩ := Outcome.check_bind_eq_ok_iff.1 checked
      exact ⟨Bool.eq_false_iff.2 nonempty, checkPropositions_eq_ok_iff.1 premised,
        checkConclusion_eq_ok_iff.1 concluded⟩
  · rintro ⟨nonempty, premised, concluded⟩
    rw [nonempty, if_neg Bool.false_ne_true, checkPropositions_eq_ok_iff.2 premised,
      Outcome.ok_bind]
    exact checkConclusion_eq_ok_iff.2 concluded

theorem addRule_eq_ok_iff {self changed : RuleBase α ω} {rule : Rule α} :
    self.addRule rule = .ok changed ↔
      rule.toStatement.Within self.vocabulary ∧ changed = self.push rule := by
  rw [addRule, Outcome.check_bind_eq_ok_iff, checkStatement_eq_ok_iff, Except.ok.injEq,
    @eq_comm _ changed]

/-! ## Texts -/

theorem parse_eq_ok_iff_statement {self : RuleBase α ω} {text : String} {rule : Rule α} :
    self.parse text = .ok rule ↔
      ∃ statement, self.vocabulary.parse text = .ok statement ∧ rule = .ofStatement statement := by
  simp only [parse, Outcome.bind_eq_ok_iff, Error.ofLanguage, Outcome.mapError_eq_ok_iff,
    Except.ok.injEq, @eq_comm _ rule]

/-- A text that is read spells the statement of the rule. -/
theorem spells_of_parse {self : RuleBase α ω} {text : String} {rule : Rule α}
    (read : self.parse text = .ok rule) :
    rule = .ofStatement rule.toStatement ∧
      Grammar.Spells self.vocabulary (tokenize text) rule.toStatement := by
  obtain ⟨statement, readStatement, rfl⟩ := parse_eq_ok_iff_statement.1 read
  obtain ⟨lexicon, built, _⟩ := Outcome.bind_eq_ok_iff.1 readStatement
  exact ⟨rfl, (Vocabulary.parse_eq_ok_iff built).1 readStatement⟩

theorem parse_of_spells {self : RuleBase α ω} {lexicon : Lexicon}
    (built : self.vocabulary.lexicon = .ok lexicon) {text : String} {statement : Statement}
    (spelled : Grammar.Spells self.vocabulary (tokenize text) statement) :
    self.parse text = .ok (.ofStatement statement) :=
  parse_eq_ok_iff_statement.2 ⟨statement, (Vocabulary.parse_eq_ok_iff built).2 spelled, rfl⟩

theorem addRuleText_eq_ok_iff {self changed : RuleBase α ω} {text : String} :
    self.addRuleText text = .ok changed ↔
      ∃ rule, self.parse text = .ok rule ∧ changed = self.push rule := by
  simp only [addRuleText, Outcome.bind_eq_ok_iff, Except.ok.injEq, @eq_comm _ changed]

/--
If the names of the variables have distinct meanings, a text is read exactly if its tokens
spell a condition and a conclusion, and then as the rule that has this condition, this
conclusion and full weight.
-/
theorem parse_eq_ok_iff_spells (self : RuleBase α ω) {lexicon : Lexicon}
    (built : self.vocabulary.lexicon = .ok lexicon) (text : String) (rule : Rule α) :
    self.parse text = .ok rule ↔
      ∃ condition conclusion,
        Grammar.Spells self.vocabulary (tokenize text) ⟨condition, conclusion⟩ ∧
        rule.condition = condition ∧ rule.conclusion = conclusion ∧ rule.weight = 1 := by
  constructor
  · intro read
    obtain ⟨rule_eq, spelled⟩ := spells_of_parse read
    obtain ⟨-, -, weight_eq⟩ := Rule.eq_ofStatement_iff.1 rule_eq
    exact ⟨rule.condition, rule.conclusion, spelled, rfl, rfl, weight_eq⟩
  · rintro ⟨condition, conclusion, spelled, same⟩
    have rule_eq : rule = .ofStatement ⟨condition, conclusion⟩ := Rule.eq_ofStatement_iff.2 same
    rw [rule_eq]
    exact parse_of_spells built spelled

def food : LinguisticVariable Float :=
  ⟨"food", 0, 10, by decide, [⟨"bad", .constant 0⟩, ⟨"good", .constant 1⟩]⟩

def tipping : RuleBase Float Signature where
  norms := default
  inputs := [food]
  outputs := [⟨"tip", ["low", "high"]⟩]
  rules := []

theorem tipping_lexicon : ∃ lexicon, tipping.vocabulary.lexicon = .ok lexicon :=
  ⟨_, rfl⟩

theorem tipping_spells :
    Grammar.Spells tipping.vocabulary
      (tokenize "if food is bad or (food is not very good) then (tip is low)")
      ⟨.group .or false [.leaf ⟨0, 0, false, none⟩, .leaf ⟨0, 1, true, some .very⟩],
        ⟨0, 0, false⟩⟩ := by
  have tokens_eq : tokenize "if food is bad or (food is not very good) then (tip is low)" =
      ["if", "food", "is", "bad", "or", "(", "food", "is", "not", "very", "good", ")", "then",
        "(", "tip", "is", "low", ")"] := by
    decide +kernel
  have bad : Grammar.Operand tipping.vocabulary ["food", "is", "bad"]
      (.leaf ⟨0, 0, false, none⟩) :=
    .leaf (@Grammar.Leaf.spelled _ 0 ⟨"food", ["bad", "good"]⟩ "bad" 0 false none rfl rfl)
  have good : Grammar.Operand tipping.vocabulary
      ["(", "food", "is", "not", "very", "good", ")"] (.leaf ⟨0, 1, true, some .very⟩) :=
    .bracketed (.operand (.leaf
      (@Grammar.Leaf.spelled _ 0 ⟨"food", ["bad", "good"]⟩ "good" 1 true (some .very) rfl rfl)))
  have holds : Grammar.Whole tipping.vocabulary
      ["food", "is", "bad", "or", "(", "food", "is", "not", "very", "good", ")"]
      (.group .or false [.leaf ⟨0, 0, false, none⟩, .leaf ⟨0, 1, true, some .very⟩]) :=
    @Grammar.Whole.chain _ .or _ _ _ _ bad (.last good)
  have nested : Grammar.NestedWithin maxNesting
      ["food", "is", "bad", "or", "(", "food", "is", "not", "very", "good", ")"] := by
    intro before initial
    have opened := List.Sublist.count_le Keyword.openBracket.text initial.sublist
    have once : ["food", "is", "bad", "or", "(", "food", "is", "not", "very", "good", ")"].count
        Keyword.openBracket.text = 1 := by
      decide
    unfold Grammar.openAfter maxNesting
    omega
  rw [tokens_eq]
  exact .rule holds (by decide) nested
    (@Grammar.Concluding.bracketed _ 0 ⟨"tip", ["low", "high"]⟩ "low" 0 rfl rfl)

theorem tipping_reads :
    ∃ rule, tipping.parse "if food is bad or (food is not very good) then (tip is low)" =
        .ok rule ∧
      rule.condition =
        .group .or false [.leaf ⟨0, 0, false, none⟩, .leaf ⟨0, 1, true, some .very⟩] ∧
      rule.conclusion = ⟨0, 0, false⟩ ∧ rule.weight = 1 := by
  obtain ⟨lexicon, built⟩ := tipping_lexicon
  have read := (parse_eq_ok_iff_spells tipping built _ ⟨⟨_, _⟩, 1⟩).2
    ⟨_, _, tipping_spells, rfl, rfl, rfl⟩
  exact ⟨_, read, rfl, rfl, rfl⟩

/--
Adding a rule text is adding the rule that is read from it, which passes all checks; a
text that cannot be read fails with the same error and changes nothing.
-/
theorem addRuleText_agrees {δ : Type} [AdjustableOutput α ω δ] (self : RuleBase α ω)
    (text : String) :
    (∀ rule, self.parse text = .ok rule →
      self.addRule rule = .ok (self.push rule) ∧ self.addRuleText text = .ok (self.push rule)) ∧
    (∀ cause, self.parse text = .error cause →
      self.addRuleText text = .error cause ∧
        self.perform (.addRuleText text : Operation α ω δ) = self) := by
  constructor
  · intro rule read
    have within := (spells_of_parse read).2.within
    exact ⟨addRule_eq_ok_iff.2 ⟨within, rfl⟩, addRuleText_eq_ok_iff.2 ⟨rule, read, rfl⟩⟩
  · intro cause fails
    have refused : self.addRuleText text = .error cause := by
      rw [addRuleText, fails]
      rfl
    exact ⟨refused, by rw [perform, apply, refused]⟩

theorem tipping_accepts :
    ∃ rule, tipping.parse "if food is bad or (food is not very good) then (tip is low)" =
        .ok rule ∧
      tipping.addRule rule = .ok (tipping.push rule) ∧
      tipping.addRuleText "if food is bad or (food is not very good) then (tip is low)" =
        .ok (tipping.push rule) := by
  obtain ⟨lexicon, built⟩ := tipping_lexicon
  have read := parse_of_spells built tipping_spells
  exact ⟨_, read, (addRuleText_agrees tipping _).1 _ read⟩

end RuleBase

end FuzzyControl
