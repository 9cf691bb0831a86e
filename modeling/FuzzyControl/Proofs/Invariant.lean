import FuzzyControl.Proofs.Naming
import FuzzyControl.Proofs.Step

/-!
# What holds of every rule base

However a rule base has come about, its rules refer to declared names only and their
weights are degrees.  Variables may grow after the rules, but they never shrink.
-/

namespace FuzzyControl

namespace Rule

variable {α : Type} [Scalar α]

/-- The rule is made from a statement, and its weight is set by the checking function. -/
inductive Built : Rule α → Prop where
  | ofStatement (statement : Statement) : Built (.ofStatement statement)
  | withWeight {rule weighted : Rule α} {weight : α} (built : Built rule)
      (accepted : rule.withWeight weight = .ok weighted) : Built weighted

theorem Built.isDegree (unit : Scalar.IsDegree (1 : α)) {rule : Rule α} (built : rule.Built) :
    Scalar.IsDegree rule.weight := by
  cases built with
  | ofStatement statement => exact unit
  | withWeight earlier accepted =>
      unfold Rule.withWeight at accepted
      split at accepted
      · rename_i degree
        cases accepted
        exact degree
      · cases accepted

end Rule

def Operation.Built {α ω δ : Type} [Scalar α] : Operation α ω δ → Prop
  | .addRule rule => rule.Built
  | _ => True

/-- Outputs whose adjustments never take a value away. -/
class GrowingOutput (α ω : Type) {δ : outParam Type} [OutputVariable ω]
    [AdjustableOutput α ω δ] : Prop where
  valueCount_le : ∀ {output changed : ω} {command : δ},
    (AdjustableOutput.adjust output command : Except (Error α) ω) = .ok changed →
      OutputVariable.valueCount output ≤ OutputVariable.valueCount changed

theorem LinguisticVariable.length_adjust {α : Type} [Scalar α]
    {original changed : LinguisticVariable α} {command : Adjustment α}
    (adjusted : original.adjust command = .ok changed) :
    original.signature.values.length ≤ changed.signature.values.length := by
  cases command with
  | addTerm name set =>
      obtain ⟨_, _, signature_eq⟩ := addTerm_signature adjusted
      rw [signature_eq, List.length_append]
      exact Nat.le_add_right _ _
  | recalibrate index set =>
      cases adjusted
      exact Nat.le_of_eq (by rw [recalibrate_signature])

instance {α : Type} [Scalar α] : GrowingOutput α (LinguisticVariable α) where
  valueCount_le adjusted := LinguisticVariable.length_adjust adjusted

instance {α : Type} : GrowingOutput α (AffineVariable α) where
  valueCount_le {original changed function} added := by
    obtain ⟨_, signature_eq⟩ := AffineVariable.addFunction_signature added
    have values_eq := congrArg (·.values.length) signature_eq
    rw [List.length_append] at values_eq
    exact Nat.le.intro values_eq.symm

instance {α : Type} : GrowingOutput α Signature where
  valueCount_le {_ _ command} := nomatch command

namespace RuleBase

variable {α ω δ : Type} [Scalar α] [OutputVariable ω]

structure Sound (base : RuleBase α ω) : Prop where
  within : ∀ rule ∈ base.rules, rule.toStatement.Within base.vocabulary
  weighted : ∀ rule ∈ base.rules, Scalar.IsDegree rule.weight

theorem sound_empty (norms : Norms) : (empty norms : RuleBase α ω).Sound :=
  ⟨fun _ member => (nomatch member), fun _ member => (nomatch member)⟩

/-- Rules stay sound while the variables grow. -/
theorem Sound.of_grows {self changed : RuleBase α ω} (sound : self.Sound)
    (rules_sub : changed.rules ⊆ self.rules)
    (grows : self.vocabulary.Grows changed.vocabulary) : changed.Sound where
  within rule member := (sound.within rule (rules_sub member)).mono grows
  weighted rule member := sound.weighted rule (rules_sub member)

theorem Sound.push {self : RuleBase α ω} (sound : self.Sound) {rule : Rule α}
    (within : rule.toStatement.Within self.vocabulary)
    (weighted : Scalar.IsDegree rule.weight) : (self.push rule).Sound where
  within other member := by
    rcases List.mem_append.1 member with earlier | last
    · exact sound.within other earlier
    · rw [List.mem_singleton.1 last]
      exact within
  weighted other member := by
    rcases List.mem_append.1 member with earlier | last
    · exact sound.weighted other earlier
    · rw [List.mem_singleton.1 last]
      exact weighted

theorem Sound.exists_term {self : RuleBase α (LinguisticVariable α)} (sound : self.Sound)
    {rule : Rule α} (member : rule ∈ self.rules) :
    ∃ output term, self.outputs[rule.conclusion.output]? = some output ∧
      output.terms[rule.conclusion.value]? = some term := by
  obtain ⟨output, declared, less⟩ := conclusionWithin_iff.1 (sound.within rule member).concluded
  have here : rule.conclusion.value < output.terms.length := by
    simpa [OutputVariable.valueCount, OutputVariable.signature, LinguisticVariable.signature]
      using less
  exact ⟨output, _, declared, List.getElem?_eq_getElem here⟩

/-! ## Operations -/

variable [AdjustableOutput α ω δ]

theorem Step.grows [GrowingOutput α ω] {self changed : RuleBase α ω}
    {operation : Operation α ω δ} (step : Step self operation changed) :
    self.vocabulary.Grows changed.vocabulary := by
  obtain ⟨inputs, outputs⟩ := step.kept
    (fun original grown => original.values.length ≤ grown.values.length)
    (fun _ => Nat.le_refl _) LinguisticVariable.length_adjust GrowingOutput.valueCount_le
  exact ⟨inputs, outputs⟩

/-- Every operation that succeeds keeps a rule base sound. -/
theorem Sound.step [GrowingOutput α ω] (unit : Scalar.IsDegree (1 : α))
    {self changed : RuleBase α ω} (sound : self.Sound) {operation : Operation α ω δ}
    (built : operation.Built) (step : Step self operation changed) : changed.Sound := by
  have grows := step.grows
  cases step with
  | addRule within => exact sound.push within (Rule.Built.isDegree unit built)
  | addRuleText read =>
      obtain ⟨rule_eq, spelled⟩ := spells_of_parse read
      refine sound.push spelled.within ?_
      rw [rule_eq]
      exact unit
  | clearRules => exact sound.of_grows (List.nil_subset _) grows
  | _ => exact sound.of_grows (List.Subset.refl _) grows

theorem Sound.performAll [GrowingOutput α ω] (unit : Scalar.IsDegree (1 : α))
    {self : RuleBase α ω} (sound : self.Sound) {operations : List (Operation α ω δ)}
    (built : ∀ operation ∈ operations, operation.Built) :
    (self.performAll operations).Sound :=
  performAll_induction Sound sound fun member step current => current.step unit (built _ member) step

/-- The rule base comes from the empty one by operations, of which any may have failed. -/
def Reachable (self : RuleBase α ω) : Prop :=
  ∃ (norms : Norms) (operations : List (Operation α ω δ)),
    (∀ operation ∈ operations, operation.Built) ∧ self = (empty norms).performAll operations

theorem Reachable.sound [GrowingOutput α ω] (unit : Scalar.IsDegree (1 : α))
    {self : RuleBase α ω} (reachable : self.Reachable) : self.Sound := by
  obtain ⟨norms, operations, built, rfl⟩ := reachable
  exact (sound_empty norms).performAll unit built

end RuleBase

end FuzzyControl
