import FuzzyControl.Mamdani
import FuzzyControl.Proofs.Extension
import FuzzyControl.Proofs.Fault
import FuzzyControl.Proofs.Printing
import FuzzyControl.Sugeno

/-!
# Names of declared variables

Declarations and adjustments keep the names of all variables apart, and the names of the
values of each.  They let a value be called like a variable, and this is the only way to
make rule texts unreadable, once and for all.
-/

namespace FuzzyControl

/-! ## Declared variables -/

namespace Vocabulary

variable {vocabulary : Vocabulary}

def Declares (vocabulary : Vocabulary) (signature : Signature) : Prop :=
  ∃ owner, vocabulary.signature? owner = some signature

theorem declares_iff {signature : Signature} :
    vocabulary.Declares signature ↔
      signature ∈ vocabulary.inputs ∨ signature ∈ vocabulary.outputs := by
  rw [List.mem_iff_getElem?, List.mem_iff_getElem?]
  constructor
  · rintro ⟨⟨key⟩ | ⟨key⟩, declared⟩
    · exact .inl ⟨key, declared⟩
    · exact .inr ⟨key, declared⟩
  · rintro (⟨key, declared⟩ | ⟨key, declared⟩)
    · exact ⟨.input key, declared⟩
    · exact ⟨.output key, declared⟩

theorem mem_names_iff {name : String} :
    name ∈ vocabulary.names ↔
      ∃ signature, vocabulary.Declares signature ∧ signature.name = name := by
  simp only [names, List.mem_append, List.mem_map, declares_iff, or_and_right, exists_or]

theorem mem_valueNames_iff {value : String} :
    value ∈ vocabulary.valueNames ↔
      ∃ signature, vocabulary.Declares signature ∧ value ∈ signature.values := by
  simp only [valueNames, List.mem_append, List.mem_flatMap, declares_iff, or_and_right, exists_or]

theorem Named.of_declares (named : vocabulary.Named) {signature : Signature}
    (declares : vocabulary.Declares signature) : signature.Named := by
  rcases declares_iff.1 declares with input | output
  · exact named.inputs signature input
  · exact named.outputs signature output

theorem ExtendsTo.declares {original extended : Vocabulary} (extends_to : original.ExtendsTo extended)
    {signature : Signature} (declares : original.Declares signature) :
    ∃ own, extended.Declares own ∧ signature.ExtendsTo own := by
  obtain ⟨owner, declared⟩ := declares
  obtain ⟨own, still, extends_own⟩ := extends_to.signature? declared
  exact ⟨own, ⟨owner, still⟩, extends_own⟩

/-! ## Clashes -/

/-- Some value is called like a variable. -/
def Clashes (vocabulary : Vocabulary) : Prop :=
  ∃ value ∈ vocabulary.valueNames, value ∈ vocabulary.names

instance (vocabulary : Vocabulary) : Decidable vocabulary.Clashes :=
  inferInstanceAs (Decidable (∃ value ∈ vocabulary.valueNames, value ∈ vocabulary.names))

theorem ne_keyword_of_isName {name : String} (named : isName name = true) (keyword : Keyword) :
    name ≠ keyword.text := by
  rintro rfl
  have unknown := (Bool.and_eq_true_iff.1 named).2
  rw [Keyword.ofText?_text] at unknown
  cases unknown

/-- Among proper names nothing but a clash is ambiguous. -/
theorem Named.unambiguous_iff (named : vocabulary.Named) (distinct : vocabulary.names.Nodup) :
    vocabulary.Unambiguous ↔ ¬vocabulary.Clashes := by
  constructor
  · rintro unambiguous ⟨value, here, name⟩
    exact unambiguous.values_not_name value here name
  · intro apart
    refine ⟨distinct, fun name member => ?_, fun value member => ?_, fun value member name => ?_⟩
    · obtain ⟨signature, declares, rfl⟩ := mem_names_iff.1 member
      exact ne_keyword_of_isName (named.of_declares declares).name
    · obtain ⟨signature, declares, here⟩ := mem_valueNames_iff.1 member
      exact ne_keyword_of_isName ((named.of_declares declares).values value here)
    · exact apart ⟨value, member, name⟩

/-- A clash never goes away. -/
theorem Clashes.mono {original extended : Vocabulary} (clashes : original.Clashes)
    (extends_to : original.ExtendsTo extended) : extended.Clashes := by
  obtain ⟨value, here, name⟩ := clashes
  obtain ⟨owner, owner_declares, member⟩ := mem_valueNames_iff.1 here
  obtain ⟨bearer, bearer_declares, same⟩ := mem_names_iff.1 name
  obtain ⟨larger, larger_declares, extends_larger⟩ := extends_to.declares owner_declares
  obtain ⟨other, other_declares, extends_other⟩ := extends_to.declares bearer_declares
  exact ⟨value,
    mem_valueNames_iff.2 ⟨larger, larger_declares, extends_larger.values_prefix.subset member⟩,
    mem_names_iff.2 ⟨other, other_declares, extends_other.name_eq.trans same⟩⟩

theorem Clashes.lexicon_fails (clashes : vocabulary.Clashes) :
    ∃ name, vocabulary.lexicon = .error (.nameConflict name) := by
  rcases vocabulary.lexicon_eq with ⟨unambiguous, _⟩ | ⟨_, name, _, refused⟩
  · obtain ⟨value, here, name⟩ := clashes
    exact absurd name (unambiguous.values_not_name value here)
  · exact ⟨name, refused⟩

theorem Named.lexicon_fails_iff (named : vocabulary.Named) (distinct : vocabulary.names.Nodup) :
    (∃ name, vocabulary.lexicon = .error (.nameConflict name)) ↔ vocabulary.Clashes := by
  refine ⟨fun ⟨name, refused⟩ => ?_, fun clashes => clashes.lexicon_fails⟩
  by_contra apart
  rcases vocabulary.lexicon_eq with ⟨_, lexicon, built⟩ | ⟨ambiguous, _⟩
  · cases refused.symm.trans built
  · exact ambiguous ((named.unambiguous_iff distinct).2 apart)

end Vocabulary

/-! ## Rule bases -/

/-- Outputs whose adjustments by checked commands keep them as the checking functions do. -/
class CheckedAdjustment (α ω : Type) {δ : outParam Type} [OutputVariable ω] [CheckedOutput ω]
    [AdjustableOutput α ω δ] where
  BuiltCommand : δ → Prop
  built_adjust : ∀ {output adjusted : ω} {command : δ}, BuiltCommand command →
    CheckedOutput.Built output →
      (AdjustableOutput.adjust output command : Except (Error α) ω) = .ok adjusted →
        CheckedOutput.Built adjusted

instance {α : Type} [Scalar α] : CheckedAdjustment α (LinguisticVariable α) where
  BuiltCommand _ := True
  built_adjust _ built adjusts := LinguisticVariable.Built.adjust built adjusts

instance {α : Type} : CheckedAdjustment α (AffineVariable α) where
  BuiltCommand := AffineFunction.Built
  built_adjust proper built added := AffineVariable.Built.addFunction built proper added

def Operation.Checked {α ω δ : Type} [Scalar α] [OutputVariable ω] [CheckedOutput ω]
    [AdjustableOutput α ω δ] [CheckedAdjustment α ω] : Operation α ω δ → Prop
  | .addInput input => input.Built
  | .addOutput output => CheckedOutput.Built output
  | .adjustOutput _ command => CheckedAdjustment.BuiltCommand α ω command
  | _ => True

namespace RuleBase

variable {α ω δ : Type} [Scalar α]

theorem inputNamed?_eq (self : RuleBase α ω) (name : String) :
    self.inputNamed? name = (self.inputs.map (·.name)).findIdx? (· == name) := by
  rw [inputNamed?, List.findIdx?_map]
  rfl

variable [OutputVariable ω]

theorem names_vocabulary (self : RuleBase α ω) :
    self.vocabulary.names =
      self.inputs.map (·.name) ++ self.outputs.map OutputVariable.name := by
  simp only [Vocabulary.names, vocabulary, List.map_map]
  rfl

theorem outputNamed?_eq (self : RuleBase α ω) (name : String) :
    self.outputNamed? name = (self.outputs.map OutputVariable.name).findIdx? (· == name) := by
  rw [outputNamed?, List.findIdx?_map]
  rfl

theorem checkUnused_eq_ok_iff {self : RuleBase α ω} {name : String} :
    self.checkUnused name = .ok () ↔ name ∉ self.vocabulary.names := by
  rw [checkUnused, inputNamed?_eq, outputNamed?_eq, names_vocabulary, List.mem_append]
  simp

variable [CheckedOutput ω]

structure WellNamed (base : RuleBase α ω) : Prop where
  inputs : ∀ input ∈ base.inputs, input.Built
  outputs : ∀ output ∈ base.outputs, CheckedOutput.Built output
  distinct : (base.inputs.map (·.name) ++ base.outputs.map OutputVariable.name).Nodup

theorem wellNamed_empty (norms : Norms) : (empty norms : RuleBase α ω).WellNamed :=
  ⟨fun _ member => (nomatch member), fun _ member => (nomatch member), List.nodup_nil⟩

theorem map_set_eq {β γ : Type} {items : List β} {position : Nat} {original changed : β}
    (change : β → γ) (here : items[position]? = some original)
    (same : change changed = change original) :
    (items.set position changed).map change = items.map change := by
  obtain ⟨less, rfl⟩ := List.getElem?_eq_some_iff.1 here
  have less_map : position < (items.map change).length := by rwa [List.length_map]
  have own : (items.map change)[position] = change items[position] := List.getElem_map change
  rw [List.map_set, same, ← own, List.set_getElem_self]

theorem forall_mem_set {β : Type} {holds : β → Prop} {items : List β} {position : Nat}
    {changed : β} (all : ∀ item ∈ items, holds item) (new : holds changed) :
    ∀ item ∈ items.set position changed, holds item := by
  intro item member
  rcases List.mem_or_eq_of_mem_set member with earlier | rfl
  · exact all item earlier
  · exact new

/-- Every operation that succeeds keeps the names apart. -/
theorem WellNamed.step [AdjustableOutput α ω δ] [CheckedAdjustment α ω] [ExtendingOutput α ω]
    {self changed : RuleBase α ω} (named : self.WellNamed) {operation : Operation α ω δ}
    (checked : operation.Checked) (step : Step self operation changed) : changed.WellNamed := by
  obtain ⟨inputs, outputs, distinct⟩ := named
  cases step with
  | addInput unused =>
      rw [checkUnused_eq_ok_iff, names_vocabulary] at unused
      refine ⟨List.forall_mem_append.2 ⟨inputs, List.forall_mem_singleton.2 checked⟩, outputs, ?_⟩
      rw [List.map_append, List.map_singleton, List.append_assoc, List.singleton_append,
        List.nodup_middle]
      exact List.nodup_cons.2 ⟨unused, distinct⟩
  | addOutput unused declared =>
      rw [checkUnused_eq_ok_iff, names_vocabulary] at unused
      refine ⟨inputs, List.forall_mem_append.2 ⟨outputs, List.forall_mem_singleton.2 checked⟩, ?_⟩
      rw [List.map_append, List.map_singleton, ← List.append_assoc, List.nodup_append_comm]
      exact List.nodup_cons.2 ⟨unused, distinct⟩
  | adjustInput here adjusts =>
      refine ⟨forall_mem_set inputs ?_, outputs, ?_⟩
      · exact .adjust (inputs _ (List.mem_of_getElem? here)) adjusts
      · rw [map_set_eq _ here (LinguisticVariable.extendsTo_adjust adjusts).name_eq]
        exact distinct
  | adjustOutput here adjusts =>
      refine ⟨inputs, forall_mem_set outputs ?_, ?_⟩
      · have built := outputs _ (List.mem_of_getElem? here)
        exact CheckedAdjustment.built_adjust checked built adjusts
      · rw [map_set_eq _ here (ExtendingOutput.extendsTo_adjust adjusts).name_eq]
        exact distinct
  | _ => exact ⟨inputs, outputs, distinct⟩

/--
The rule base comes from the empty one by operations on checked variables, of which any
may have failed.
-/
def Assembled [AdjustableOutput α ω δ] [CheckedAdjustment α ω] (self : RuleBase α ω) : Prop :=
  ∃ (norms : Norms) (operations : List (Operation α ω δ)),
    (∀ operation ∈ operations, operation.Checked) ∧ self = (empty norms).performAll operations

theorem Assembled.wellNamed [AdjustableOutput α ω δ] [CheckedAdjustment α ω] [ExtendingOutput α ω]
    {self : RuleBase α ω} (assembled : self.Assembled) : self.WellNamed := by
  obtain ⟨norms, operations, checked, rfl⟩ := assembled
  exact performAll_induction WellNamed (wellNamed_empty norms)
    fun member step current => current.step (checked _ member) step

/-! ## Looking up names -/

/-- Names are proper and distinct, and variables are found by them exactly where they are. -/
structure FindsNames (base : RuleBase α ω) : Prop where
  distinct : base.vocabulary.names.Nodup
  named : base.vocabulary.Named
  input : ∀ (name : String) (key : Nat),
    base.inputNamed? name = some key ↔ base.inputs[key]?.map (·.name) = some name
  output : ∀ (name : String) (key : Nat),
    base.outputNamed? name = some key ↔ base.outputs[key]?.map OutputVariable.name = some name
  one_side : ∀ name : String, base.inputNamed? name = none ∨ base.outputNamed? name = none

theorem WellNamed.findsNames {self : RuleBase α ω} (named : self.WellNamed) : self.FindsNames := by
  have ⟨inputs_distinct, outputs_distinct, apart⟩ := List.nodup_append'.1 named.distinct
  refine ⟨by rw [names_vocabulary]; exact named.distinct,
    vocabulary_named named.inputs named.outputs, fun name key => ?_, fun name key => ?_,
    fun name => ?_⟩
  · rw [inputNamed?_eq, findIdx?_eq_some_iff inputs_distinct, List.getElem?_map]
  · rw [outputNamed?_eq, findIdx?_eq_some_iff outputs_distinct, List.getElem?_map]
  · rw [inputNamed?_eq, outputNamed?_eq]
    cases found : (self.inputs.map (·.name)).findIdx? (· == name) with
    | none => exact .inl rfl
    | some key =>
        have here := List.mem_of_getElem? ((findIdx?_eq_some_iff inputs_distinct).1 found)
        refine .inr (List.findIdx?_eq_none_iff.2 fun other member => ?_)
        rw [beq_eq_false_iff_ne]
        rintro rfl
        exact apart here member

/-! ## Unreadable rule texts -/

omit [CheckedOutput ω] in
theorem parse_eq_nameConflict_iff {self : RuleBase α ω} {text name : String} :
    self.parse text = .error (.language (.nameConflict name)) ↔
      self.vocabulary.lexicon = .error (.nameConflict name) := by
  rw [parse, Outcome.bind_ok_eq_error_iff, Error.ofLanguage, Outcome.mapError_eq_error_iff,
    ← @Vocabulary.parse_eq_nameConflict_iff _ text]
  constructor
  · rintro ⟨cause, fails, same⟩
    cases same
    exact fails
  · intro fails
    exact ⟨_, fails, rfl⟩

/-- A clash is what makes all rule texts unreadable, now and after any further operations. -/
structure BlockedByClash [AdjustableOutput α ω δ] (base : RuleBase α ω) : Prop where
  lexicon : (∃ name, base.vocabulary.lexicon = .error (.nameConflict name)) ↔
    base.vocabulary.Clashes
  parse : ∀ text : String, (∃ name, base.parse text = .error (.language (.nameConflict name))) ↔
    base.vocabulary.Clashes
  addRuleText : ∀ text : String,
    (∃ name, base.addRuleText text = .error (.language (.nameConflict name))) ↔
      base.vocabulary.Clashes
  forever : base.vocabulary.Clashes → ∀ (operations : List (Operation α ω δ)) (text : String),
    ∃ name, (base.performAll operations).parse text = .error (.language (.nameConflict name))

omit [CheckedOutput ω] in
/-- Once there is a clash, no text is read in any later state. -/
theorem parse_performAll_of_clashes [AdjustableOutput α ω δ] [ExtendingOutput α ω]
    {self : RuleBase α ω} (clashes : self.vocabulary.Clashes)
    (operations : List (Operation α ω δ)) (text : String) :
    ∃ name, (self.performAll operations).parse text =
      .error (.language (.nameConflict name)) := by
  obtain ⟨name, refused⟩ := (clashes.mono (self.extendsTo_performAll operations)).lexicon_fails
  exact ⟨name, parse_eq_nameConflict_iff.2 refused⟩

theorem WellNamed.blockedByClash [AdjustableOutput α ω δ] [ExtendingOutput α ω]
    {self : RuleBase α ω} (named : self.WellNamed) : self.BlockedByClash := by
  have finds := named.findsNames
  have lexicon := finds.named.lexicon_fails_iff finds.distinct
  refine ⟨lexicon, fun text => ?_, fun text => ?_, parse_performAll_of_clashes⟩
  · simp only [parse_eq_nameConflict_iff, lexicon]
  · simp only [addRuleText, Outcome.bind_ok_eq_error_iff, parse_eq_nameConflict_iff, lexicon]

end RuleBase

/--
In every state that checked declarations lead to, names are proper, distinct and found where
they are.  Reading a rule text fails for the names exactly if a term or a function is called
like a variable, and then it fails for all texts and forever.
-/
theorem reading_blocked_iff_clash {α : Type} [Scalar α] :
    (∀ self : Mamdani α, self.toRuleBase.Assembled →
      self.toRuleBase.FindsNames ∧
      (∀ linguistic ∈ self.inputs ++ self.outputs, linguistic.FindsTerms) ∧
      self.toRuleBase.BlockedByClash) ∧
    (∀ self : Sugeno α, self.toRuleBase.Assembled →
      self.toRuleBase.FindsNames ∧
      (∀ input ∈ self.inputs, input.FindsTerms) ∧
      (∀ output ∈ self.outputs, output.FindsFunctions) ∧
      self.toRuleBase.BlockedByClash) := by
  refine ⟨fun self assembled => ?_, fun self assembled => ?_⟩
  · have named := assembled.wellNamed
    have built := List.forall_mem_append.2 ⟨named.inputs, named.outputs⟩
    exact ⟨named.findsNames, fun linguistic member => (built linguistic member).findsTerms,
      named.blockedByClash⟩
  · have named := assembled.wellNamed
    exact ⟨named.findsNames, fun input member => (named.inputs input member).findsTerms,
      fun output member => AffineVariable.Built.findsFunctions (named.outputs output member),
      named.blockedByClash⟩

/-- Operations that call a term of the food like the tip; the rule text after that is refused. -/
def muddlingOperations :
    List (Operation Float (LinguisticVariable Float) (LinguisticVariable.Adjustment Float)) :=
  [.addInput { RuleBase.food with terms := [] },
    .addOutput { RuleBase.food with name := "tip", terms := [] },
    .adjustInput 0 (.addTerm "bad" (.constant 1)),
    .adjustOutput 0 (.addTerm "low" (.constant 1)),
    .addRuleText "if food is bad then tip is low",
    .adjustInput 0 (.addTerm "tip" (.constant 0.5)),
    .addRuleText "if food is tip then tip is low"]

def muddled : Mamdani Float :=
  ⟨(RuleBase.empty default).performAll muddlingOperations, default, default, default⟩

/-- Operations that use one word for a term and a function, but for no variable. -/
def pricingOperations :
    List (Operation Float (AffineVariable Float) (AffineFunction Float)) :=
  [.addInput { RuleBase.food with terms := [] },
    .addOutput ⟨"tip", []⟩,
    .adjustInput 0 (.addTerm "low" (.constant 1)),
    .adjustOutput 0 ⟨"low", ∅, 5⟩]

def pricing : Sugeno Float :=
  ⟨(RuleBase.empty default).performAll pricingOperations⟩

theorem muddled_blocks_reading :
    muddled.rules.length = 1 ∧ muddled.outputNamed? "tip" = some 0 ∧
    (∃ name, (muddled.performAll [.clearRules]).parse "if food is bad then tip is low" =
      .error (.language (.nameConflict name))) ∧
    ¬∃ name, pricing.addRuleText "if food is good then tip is low" =
      .error (.language (.nameConflict name)) := by
  have food_declared : LinguisticVariable.declare "food" 0 10 =
      .ok { RuleBase.food with terms := [] } := rfl
  have tip_declared : LinguisticVariable.declare "tip" 0 10 =
      .ok { RuleBase.food with name := "tip", terms := [] } := rfl
  have food_built := LinguisticVariable.Built.declare food_declared
  have tip_built := LinguisticVariable.Built.declare tip_declared
  have muddling_checked : ∀ operation ∈ muddlingOperations, operation.Checked := by
    simp [muddlingOperations, Operation.Checked, CheckedOutput.Built,
      CheckedAdjustment.BuiltCommand, food_built, tip_built]
  have pricing_checked : ∀ operation ∈ pricingOperations, operation.Checked := by
    have amount_declared : AffineVariable.declare "tip" =
        .ok (⟨"tip", []⟩ : AffineVariable Float) := rfl
    have amount_built := AffineVariable.Built.declare amount_declared
    have low_built : AffineFunction.Built (⟨"low", ∅, 5⟩ : AffineFunction Float) :=
      ⟨"low", [], 5, rfl⟩
    simp [pricingOperations, Operation.Checked, CheckedOutput.Built,
      CheckedAdjustment.BuiltCommand, food_built, amount_built, low_built]
  obtain ⟨finds, _, blocked⟩ :=
    reading_blocked_iff_clash.1 muddled ⟨default, muddlingOperations, muddling_checked, rfl⟩
  obtain ⟨_, _, _, open_⟩ :=
    reading_blocked_iff_clash.2 pricing ⟨default, pricingOperations, pricing_checked, rfl⟩
  refine ⟨by decide +kernel, (finds.output _ _).2 (by decide +kernel), ?_, ?_⟩
  · exact blocked.forever (by decide +kernel) _ _
  · rw [open_.addRuleText]
    decide +kernel

end FuzzyControl
