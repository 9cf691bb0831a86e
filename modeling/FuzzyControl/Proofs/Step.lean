import FuzzyControl.Proofs.RuleText

/-!
# Successful operations

An operation that succeeds is a step from one rule base to another.  What all steps keep
is kept by every run, because operations that fail change nothing.
-/

namespace FuzzyControl

/-! ## Lists of variables -/

/-- Every variable has, under its own key, a related one among the changed variables. -/
def Kept (relation : Signature → Signature → Prop) (original changed : List Signature) : Prop :=
  ∀ (key : Nat) (signature : Signature), original[key]? = some signature →
    ∃ own : Signature, changed[key]? = some own ∧ relation signature own

namespace Kept

variable {relation : Signature → Signature → Prop}

theorem refl (reflexive : ∀ signature, relation signature signature)
    (signatures : List Signature) : Kept relation signatures signatures :=
  fun _ signature declared => ⟨signature, declared, reflexive signature⟩

theorem append (reflexive : ∀ signature, relation signature signature)
    (signatures more : List Signature) : Kept relation signatures (signatures ++ more) := by
  intro key signature declared
  have less := (List.getElem?_eq_some_iff.1 declared).1
  exact ⟨signature, by rw [List.getElem?_append_left less, declared], reflexive signature⟩

theorem set (reflexive : ∀ signature, relation signature signature)
    {signatures : List Signature} {key : Nat} {original changed : Signature}
    (here : signatures[key]? = some original) (related : relation original changed) :
    Kept relation signatures (signatures.set key changed) := by
  intro other signature declared
  by_cases same : key = other
  · subst same
    have less := (List.getElem?_eq_some_iff.1 here).1
    rw [here] at declared
    cases declared
    exact ⟨changed, List.getElem?_set_self less, related⟩
  · exact ⟨signature, by rw [List.getElem?_set_ne same, declared], reflexive signature⟩

end Kept

/-! ## Steps -/

namespace RuleBase

variable {α ω δ : Type} [Scalar α] [OutputVariable ω] [AdjustableOutput α ω δ]

inductive Step : RuleBase α ω → Operation α ω δ → RuleBase α ω → Prop where
  | addInput {self : RuleBase α ω} {input : LinguisticVariable α}
      (unused : self.checkUnused input.name = .ok ()) :
      Step self (.addInput input) { self with inputs := self.inputs ++ [input] }
  | addOutput {self : RuleBase α ω} {output : ω}
      (unused : self.checkUnused (OutputVariable.name output) = .ok ())
      (declared : (OutputVariable.referenced output).all (· < self.inputs.length) = true) :
      Step self (.addOutput output) { self with outputs := self.outputs ++ [output] }
  | adjustInput {self : RuleBase α ω} {key : Nat} {command : LinguisticVariable.Adjustment α}
      {input adjusted : LinguisticVariable α} (here : self.inputs[key]? = some input)
      (adjusts : input.adjust command = .ok adjusted) :
      Step self (.adjustInput key command) { self with inputs := self.inputs.set key adjusted }
  | adjustNoInput {self : RuleBase α ω} {key : Nat} {command : LinguisticVariable.Adjustment α}
      (missing : self.inputs[key]? = none) : Step self (.adjustInput key command) self
  | adjustOutput {self : RuleBase α ω} {key : Nat} {command : δ} {output adjusted : ω}
      (here : self.outputs[key]? = some output)
      (adjusts : (AdjustableOutput.adjust output command : Except (Error α) ω) = .ok adjusted) :
      Step self (.adjustOutput key command) { self with outputs := self.outputs.set key adjusted }
  | adjustNoOutput {self : RuleBase α ω} {key : Nat} {command : δ}
      (missing : self.outputs[key]? = none) : Step self (.adjustOutput key command) self
  | addRule {self : RuleBase α ω} {rule : Rule α}
      (within : rule.toStatement.Within self.vocabulary) :
      Step self (.addRule rule) (self.push rule)
  | addRuleText {self : RuleBase α ω} {text : String} {rule : Rule α}
      (read : self.parse text = .ok rule) : Step self (.addRuleText text) (self.push rule)
  | clearRules {self : RuleBase α ω} : Step self .clearRules self.clearRules
  | setConjunction {self : RuleBase α ω} {conjunction : Conjunction} :
      Step self (.setConjunction conjunction) (self.setConjunction conjunction)
  | setDisjunction {self : RuleBase α ω} {disjunction : Disjunction} :
      Step self (.setDisjunction disjunction) (self.setDisjunction disjunction)

variable {self changed : RuleBase α ω} {operation : Operation α ω δ}

theorem step_of_apply (done : self.apply operation = .ok changed) :
    Step self operation changed := by
  cases operation with
  | addInput input =>
      obtain ⟨unused, same⟩ := Outcome.check_bind_eq_ok_iff.1 done
      cases same
      exact .addInput unused
  | addOutput output =>
      obtain ⟨unused, checked⟩ := Outcome.check_bind_eq_ok_iff.1 done
      split at checked
      · rename_i declared
        cases checked
        exact .addOutput unused declared
      · cases checked
  | adjustInput key command =>
      simp only [apply, RuleBase.adjustInput] at done
      split at done
      · rename_i missing
        cases done
        exact .adjustNoInput missing
      · rename_i input here
        obtain ⟨adjusted, adjusts, same⟩ := Outcome.bind_eq_ok_iff.1 done
        cases same
        exact .adjustInput here adjusts
  | adjustOutput key command =>
      simp only [apply, RuleBase.adjustOutput] at done
      split at done
      · rename_i missing
        cases done
        exact .adjustNoOutput missing
      · rename_i output here
        obtain ⟨adjusted, adjusts, same⟩ := Outcome.bind_eq_ok_iff.1 done
        cases same
        exact .adjustOutput here adjusts
  | addRule rule =>
      obtain ⟨within, rfl⟩ := addRule_eq_ok_iff.1 done
      exact .addRule within
  | addRuleText text =>
      obtain ⟨rule, read, rfl⟩ := addRuleText_eq_ok_iff.1 done
      exact .addRuleText read
  | clearRules =>
      cases done
      exact .clearRules
  | setConjunction conjunction =>
      cases done
      exact .setConjunction
  | setDisjunction disjunction =>
      cases done
      exact .setDisjunction

theorem apply_of_step (step : Step self operation changed) :
    self.apply operation = .ok changed := by
  cases step with
  | addInput unused => exact Outcome.check_bind_eq_ok_iff.2 ⟨unused, rfl⟩
  | addOutput unused declared => exact Outcome.check_bind_eq_ok_iff.2 ⟨unused, if_pos declared⟩
  | adjustInput here adjusts =>
      simp only [apply, RuleBase.adjustInput, here, adjusts, Outcome.ok_bind]
  | adjustNoInput missing => simp only [apply, RuleBase.adjustInput, missing]
  | adjustOutput here adjusts =>
      simp only [apply, RuleBase.adjustOutput, here, adjusts, Outcome.ok_bind]
  | adjustNoOutput missing => simp only [apply, RuleBase.adjustOutput, missing]
  | addRule within => exact addRule_eq_ok_iff.2 ⟨within, rfl⟩
  | addRuleText read => exact addRuleText_eq_ok_iff.2 ⟨_, read, rfl⟩
  | clearRules => rfl
  | setConjunction => rfl
  | setDisjunction => rfl

/-- The steps are the operations that succeed. -/
theorem apply_eq_ok_iff : self.apply operation = .ok changed ↔ Step self operation changed :=
  ⟨step_of_apply, apply_of_step⟩

/-- What every step of a run keeps holds after the run, whichever operations fail. -/
theorem performAll_induction (holds : RuleBase α ω → Prop) {operations : List (Operation α ω δ)}
    (initially : holds self)
    (keeps : ∀ {current next : RuleBase α ω} {operation : Operation α ω δ},
      operation ∈ operations → Step current operation next → holds current → holds next) :
    holds (self.performAll operations) := by
  induction operations generalizing self with
  | nil => exact initially
  | cons operation rest ih =>
      refine ih ?_ fun member => keeps (List.mem_cons_of_mem _ member)
      unfold perform
      split
      · rename_i done
        exact keeps List.mem_cons_self (step_of_apply done) initially
      · exact initially

/-- If adjusted variables are related to what they were, then so are all variables. -/
theorem Step.kept (relation : Signature → Signature → Prop)
    (reflexive : ∀ signature, relation signature signature)
    (adjusted_input : ∀ {input adjusted : LinguisticVariable α}
      {command : LinguisticVariable.Adjustment α},
      input.adjust command = .ok adjusted → relation input.signature adjusted.signature)
    (adjusted_output : ∀ {output adjusted : ω} {command : δ},
      (AdjustableOutput.adjust output command : Except (Error α) ω) = .ok adjusted →
        relation (OutputVariable.signature output) (OutputVariable.signature adjusted))
    (step : Step self operation changed) :
    Kept relation self.vocabulary.inputs changed.vocabulary.inputs ∧
      Kept relation self.vocabulary.outputs changed.vocabulary.outputs := by
  have unchanged (signatures : List Signature) : Kept relation signatures signatures :=
    .refl reflexive signatures
  cases step with
  | addInput unused =>
      refine ⟨?_, unchanged _⟩
      simp only [vocabulary, List.map_append]
      exact .append reflexive _ _
  | addOutput unused declared =>
      refine ⟨unchanged _, ?_⟩
      simp only [vocabulary, List.map_append]
      exact .append reflexive _ _
  | adjustInput here adjusts =>
      refine ⟨?_, unchanged _⟩
      simp only [vocabulary, List.map_set]
      refine .set reflexive ?_ (adjusted_input adjusts)
      rw [List.getElem?_map, here, Option.map_some]
  | adjustOutput here adjusts =>
      refine ⟨unchanged _, ?_⟩
      simp only [vocabulary, List.map_set]
      refine .set reflexive ?_ (adjusted_output adjusts)
      rw [List.getElem?_map, here, Option.map_some]
  | adjustNoInput missing => exact ⟨unchanged _, unchanged _⟩
  | adjustNoOutput missing => exact ⟨unchanged _, unchanged _⟩
  | addRule within => exact ⟨unchanged _, unchanged _⟩
  | addRuleText read => exact ⟨unchanged _, unchanged _⟩
  | clearRules => exact ⟨unchanged _, unchanged _⟩
  | setConjunction => exact ⟨unchanged _, unchanged _⟩
  | setDisjunction => exact ⟨unchanged _, unchanged _⟩

end RuleBase

end FuzzyControl
