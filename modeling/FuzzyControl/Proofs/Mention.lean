import FuzzyControl.Proofs.Calculation
import FuzzyControl.Proofs.Validation
import FuzzyControl.RuleBase.Operation

/-!
# What rules mention

A controller looks at its inputs through the degrees of the terms that its rules mention and
through the values that its outputs depend on.  Two runs that agree on these give the very
same answer, whatever the operations on numbers return.
-/

namespace FuzzyControl

variable {α ω : Type} [Scalar α]

/-! ## Conditions -/

namespace Condition

variable {norms : Norms} {first second : Memberships α}

mutual

/-- The degree of a condition is decided by the degrees that its propositions look up. -/
theorem degree_congr (condition : Condition)
    (same : ∀ proposition ∈ condition.propositions,
      first.degree? proposition.input proposition.term =
        second.degree? proposition.input proposition.term) :
    condition.degree norms first = condition.degree norms second := by
  match condition with
  | leaf proposition =>
      have looked_up := same proposition (List.mem_singleton_self _)
      rw [degree, degree, Proposition.degree, Proposition.degree, looked_up]
  | group connective negated children =>
      rw [degree, degree, degrees_congr children same]

theorem degrees_congr (children : List Condition)
    (same : ∀ proposition ∈ propositionsOf children,
      first.degree? proposition.input proposition.term =
        second.degree? proposition.input proposition.term) :
    degrees norms first children = degrees norms second children := by
  match children with
  | [] => rfl
  | child :: rest =>
      have same_first := degree_congr child fun proposition member =>
        same proposition (List.mem_append_left _ member)
      have same_rest := degrees_congr rest fun proposition member =>
        same proposition (List.mem_append_right _ member)
      rw [degrees, degrees, same_first, same_rest]

end

end Condition

/-! ## Runs -/

namespace RuleBase

/-- Some rule has a proposition about the term. -/
def Mentions (self : RuleBase α ω) (input term : Nat) : Prop :=
  ∃ rule ∈ self.rules, ∃ proposition ∈ rule.condition.propositions,
    proposition.input = input ∧ proposition.term = term

/-- The degree of a declared term at the value of its input. -/
def termDegree? (self : RuleBase α ω) (values : KeyMap α) (input term : Nat) : Option α := do
  let owner ← self.inputs[input]?
  let value ← values.get? input
  let own ← owner.terms[term]?
  some (own.set.degree value)

/-- Accepted values leave nothing to a default: a look-up finds the degree of a declared term. -/
theorem degree?_of_accepted {self : RuleBase α ω} {values : KeyMap α}
    (accepted : self.validate values = .ok ()) (input term : Nat) :
    (self.memberships values).degree? input term = self.termDegree? values input term := by
  rw [Memberships.degree?, memberships, List.getElem?_map, List.getElem?_zipIdx, termDegree?]
  cases declared : self.inputs[input]? with
  | none => rfl
  | some owner =>
      obtain ⟨value, found⟩ := exists_value_of_accepted accepted declared
      simp only [Option.map_some, Nat.zero_add, found, Option.getD_some, Option.bind_some,
        LinguisticVariable.fuzzify, List.getElem?_map, bind]
      cases owner.terms[term]? <;> rfl

variable [OutputVariable ω]

/--
The rule bases differ at most in their inputs, and with their values they agree on the degree
of every mentioned term and on the value of every declared input that an output depends on.
-/
structure Indistinct (first second : RuleBase α ω) (firstValues secondValues : KeyMap α) :
    Prop where
  norms : first.norms = second.norms
  outputs : first.outputs = second.outputs
  rules : first.rules = second.rules
  inputs : first.inputs.length = second.inputs.length
  degrees : ∀ input term, first.Mentions input term →
    first.termDegree? firstValues input term = second.termDegree? secondValues input term
  values : ∀ output ∈ first.outputs, ∀ key ∈ OutputVariable.referenced output,
    key < first.inputs.length → firstValues.get? key = secondValues.get? key

namespace Indistinct

variable {first second : RuleBase α ω} {firstValues secondValues : KeyMap α}
  (indistinct : first.Indistinct second firstValues secondValues)
  (first_accepted : first.validate firstValues = .ok ())
  (second_accepted : second.validate secondValues = .ok ())

include indistinct first_accepted second_accepted

theorem strengths_eq :
    first.strengths (first.memberships firstValues) =
      second.strengths (second.memberships secondValues) := by
  rw [strengths, strengths, ← indistinct.rules]
  refine List.map_congr_left fun rule member => ?_
  have degree_eq : rule.condition.degree first.norms (first.memberships firstValues) =
      rule.condition.degree first.norms (second.memberships secondValues) := by
    refine rule.condition.degree_congr fun proposition inside => ?_
    rw [degree?_of_accepted first_accepted, degree?_of_accepted second_accepted]
    exact indistinct.degrees _ _ ⟨rule, member, proposition, inside, rfl, rfl⟩
  rw [strength, strength, ← indistinct.norms, degree_eq]

/-- A key that no input has is absent from all accepted values. -/
theorem value_eq {output : ω} (member : output ∈ first.outputs) {key : Nat}
    (referenced : key ∈ OutputVariable.referenced output) :
    firstValues.get? key = secondValues.get? key := by
  by_cases declared : key < first.inputs.length
  · exact indistinct.values output member key referenced declared
  · have undeclared := Nat.le_of_not_lt declared
    rw [get?_eq_none_of_accepted first_accepted undeclared,
      get?_eq_none_of_accepted second_accepted (indistinct.inputs ▸ undeclared)]

omit first_accepted second_accepted in
theorem exists_inputs : ∃ inputs, second = { first with inputs := inputs } := by
  obtain ⟨norms, inputs, outputs, rules⟩ := second
  obtain ⟨rfl, rfl, rfl⟩ : first.norms = norms ∧ first.outputs = outputs ∧ first.rules = rules :=
    ⟨indistinct.norms, indistinct.outputs, indistinct.rules⟩
  exact ⟨inputs, rfl⟩

end Indistinct

/-- Values of an input that is neither mentioned nor depended on cannot be told apart. -/
theorem indistinct_of_unused {self : RuleBase α ω} {values changed : KeyMap α} {key : Nat}
    (unmentioned : ∀ term, ¬self.Mentions key term)
    (unreferenced : ∀ output ∈ self.outputs, key ∉ OutputVariable.referenced output)
    (same : ∀ other, other ≠ key → values.get? other = changed.get? other) :
    self.Indistinct self values changed where
  norms := rfl
  outputs := rfl
  rules := rfl
  inputs := rfl
  degrees input term mentioned := by
    have other : input ≠ key := by
      rintro rfl
      exact unmentioned term mentioned
    rw [termDegree?, termDegree?, same input other]
  values output member other referenced _ := by
    refine same other ?_
    rintro rfl
    exact unreferenced output member referenced

/-! ## Recalibrated terms -/

def recalibrate (self : RuleBase α ω) (key index : Nat) (set : FuzzySet α) : RuleBase α ω :=
  { self with inputs := self.inputs.modify key (·.recalibrate index set) }

omit [OutputVariable ω] in
theorem adjustInput_recalibrate (self : RuleBase α ω) (key index : Nat) (set : FuzzySet α) :
    self.adjustInput key (.recalibrate index set) = .ok (self.recalibrate key index set) := by
  rw [adjustInput, recalibrate, List.modify_eq_set_getElem?]
  cases self.inputs[key]? <;> rfl

theorem checkValues_modify (values : KeyMap α) (start key index : Nat) (set : FuzzySet α)
    (inputs : List (LinguisticVariable α)) :
    checkValues values start (inputs.modify key (·.recalibrate index set)) =
      checkValues values start inputs := by
  induction inputs generalizing start key with
  | nil => rw [List.modify_nil]
  | cons input rest ih =>
      cases key with
      | zero => rfl
      | succ key =>
          rw [List.modify_succ_cons, checkValues, checkValues, ih]

omit [OutputVariable ω] in
/-- No check of values looks at a fuzzy set. -/
theorem validate_recalibrate (self : RuleBase α ω) (key index : Nat) (set : FuzzySet α)
    (values : KeyMap α) :
    (self.recalibrate key index set).validate values = self.validate values := by
  simp only [validate, recalibrate, List.length_modify, checkValues_modify]

omit [OutputVariable ω] in
theorem termDegree?_recalibrate (self : RuleBase α ω) {key index : Nat} (set : FuzzySet α)
    (values : KeyMap α) {input term : Nat} (other : ¬(input = key ∧ term = index)) :
    (self.recalibrate key index set).termDegree? values input term =
      self.termDegree? values input term := by
  rw [termDegree?, termDegree?, recalibrate, List.getElem?_modify]
  cases self.inputs[input]? with
  | none => rfl
  | some owner =>
      by_cases here : key = input
      · have elsewhere : index ≠ term := fun same => other ⟨here.symm, same.symm⟩
        simp only [Option.map_eq_map, Option.map_some, if_pos here, bind, Option.bind_some,
          LinguisticVariable.recalibrate, List.getElem?_modify_ne _ _ elsewhere]
      · simp only [Option.map_eq_map, Option.map_some, if_neg here]

theorem indistinct_recalibrate {self : RuleBase α ω} {key index : Nat}
    (unmentioned : ¬self.Mentions key index) (set : FuzzySet α) (values : KeyMap α) :
    (self.recalibrate key index set).Indistinct self values values where
  norms := rfl
  outputs := rfl
  rules := rfl
  inputs := List.length_modify _ _ _
  degrees input term mentioned := by
    refine termDegree?_recalibrate self set values ?_
    rintro ⟨rfl, rfl⟩
    exact unmentioned mentioned
  values _ _ _ _ _ := rfl

/-! ## Answers -/

/-- Answers depend on inputs only through mentioned terms and through what outputs depend on. -/
structure DecidedByMentions
    (answer : RuleBase α ω → KeyMap α → Except (Error α) (KeyMap α)) : Prop where
  succeeds : ∀ {self values}, self.rules ≠ [] → self.validate values = .ok () →
    ∃ results, answer self values = .ok results
  of_indistinct : ∀ {first second firstValues secondValues},
    first.Indistinct second firstValues secondValues →
    first.validate firstValues = .ok () → second.validate secondValues = .ok () →
      answer first firstValues = answer second secondValues
  of_unused_input : ∀ {self values changed key}, (∀ term, ¬self.Mentions key term) →
    (∀ output ∈ self.outputs, key ∉ OutputVariable.referenced output) →
    (∀ other, other ≠ key → values.get? other = changed.get? other) →
    self.validate values = .ok () → self.validate changed = .ok () →
      answer self values = answer self changed
  of_unused_term : ∀ {self recalibrated values key index set}, ¬self.Mentions key index →
    self.adjustInput key (.recalibrate index set) = .ok recalibrated →
      answer recalibrated values = answer self values

omit [OutputVariable ω] in
theorem inferWith_congr {β : Type} {first second : RuleBase α ω}
    {firstValues secondValues : KeyMap α} {firstFinish secondFinish : Memberships α → β}
    (rules : first.rules = second.rules)
    (validated : first.validate firstValues = second.validate secondValues)
    (same : first.validate firstValues = .ok () →
      firstFinish (first.memberships firstValues) =
        secondFinish (second.memberships secondValues)) :
    first.inferWith firstValues firstFinish = second.inferWith secondValues secondFinish := by
  have checked : first.checkRules = second.checkRules := by rw [checkRules, checkRules, rules]
  rw [inferWith, inferWith, checked, fuzzify, fuzzify]
  cases outcome : first.validate firstValues with
  | error cause => rw [← validated, outcome]; rfl
  | ok _ =>
      rw [← validated, outcome]
      exact congrArg (fun result => second.checkRules >>= fun _ => .ok result) (same outcome)

/-- It is enough that indistinct runs compute the same from accepted values. -/
theorem DecidedByMentions.of {answer : RuleBase α ω → KeyMap α → Except (Error α) (KeyMap α)}
    (finish : RuleBase α ω → KeyMap α → Memberships α → KeyMap α)
    (answer_eq : ∀ self values, answer self values = self.inferWith values (finish self values))
    (same : ∀ {first second firstValues secondValues},
      first.Indistinct second firstValues secondValues →
      first.validate firstValues = .ok () → second.validate secondValues = .ok () →
        finish first firstValues (first.memberships firstValues) =
          finish second secondValues (second.memberships secondValues)) :
    DecidedByMentions answer := by
  have agree {first second : RuleBase α ω} {firstValues secondValues : KeyMap α}
      (indistinct : first.Indistinct second firstValues secondValues)
      (validated : first.validate firstValues = second.validate secondValues) :
      answer first firstValues = answer second secondValues := by
    rw [answer_eq, answer_eq]
    exact inferWith_congr indistinct.rules validated fun accepted =>
      same indistinct accepted (validated ▸ accepted)
  constructor
  case succeeds =>
    intro self values some_rule accepted
    rw [answer_eq, inferWith_eq_ok some_rule accepted]
    exact ⟨_, rfl⟩
  case of_indistinct =>
    intro first second firstValues secondValues indistinct accepted also_accepted
    exact agree indistinct (accepted.trans also_accepted.symm)
  case of_unused_input =>
    intro self values changed key unmentioned unreferenced same_values accepted also_accepted
    exact agree (indistinct_of_unused unmentioned unreferenced same_values)
      (accepted.trans also_accepted.symm)
  case of_unused_term =>
    intro self recalibrated values key index set unmentioned adjusted
    rw [adjustInput_recalibrate] at adjusted
    cases adjusted
    exact agree (indistinct_recalibrate unmentioned set values)
      (self.validate_recalibrate key index set values)

end RuleBase

/-! ## Controllers -/

theorem AffineFunction.value_congr (function : AffineFunction α) {first second : KeyMap α}
    (same : ∀ key ∈ function.coefficients.keys, first.get? key = second.get? key) :
    function.value first = function.value second :=
  List.foldl_ext _ _ _ fun sum entry member => by
    rw [same entry.1 (List.mem_map_of_mem member)]

theorem AffineVariable.values_congr (output : AffineVariable α) {first second : KeyMap α}
    (same : ∀ key ∈ output.referenced, first.get? key = second.get? key) :
    output.values first = output.values second :=
  List.map_congr_left fun function member => function.value_congr fun key stored =>
    same key (List.mem_flatMap.2 ⟨function, member, stored⟩)

/--
The answers of a controller are decided by the degrees of the terms that its rules mention
and by the values of the inputs that its functions have coefficients for.  Neither the value
of another input nor the fuzzy set of another term changes any of them.
-/
theorem calculate_decided_by_mentions :
    (∀ (implication : Implication) (aggregation : Aggregation)
        (defuzzification : Defuzzification),
      RuleBase.DecidedByMentions fun base : RuleBase α (LinguisticVariable α) =>
        (Mamdani.mk base implication aggregation defuzzification).calculate) ∧
    RuleBase.DecidedByMentions fun base : RuleBase α (AffineVariable α) =>
      (Sugeno.mk base).calculate := by
  constructor
  · intro implication aggregation defuzzification
    refine .of (fun base _ memberships =>
      let self : Mamdani α := ⟨base, implication, aggregation, defuzzification⟩
      self.defuzzify (self.aggregate (self.implicate (base.strengths memberships))))
      (fun _ _ => rfl) fun {first second _ _} indistinct accepted also_accepted => ?_
    have strengths_eq := indistinct.strengths_eq accepted also_accepted
    obtain ⟨inputs, rfl⟩ := indistinct.exists_inputs
    let self : Mamdani α := ⟨first, implication, aggregation, defuzzification⟩
    exact congrArg (fun strengths => self.defuzzify (self.aggregate (self.implicate strengths)))
      strengths_eq
  · refine .of (fun base values memberships =>
      let self : Sugeno α := ⟨base⟩
      self.combine (base.strengths memberships) (self.functionValues values))
      (fun _ _ => rfl) fun {first second firstValues secondValues} indistinct accepted
        also_accepted => ?_
    have strengths_eq := indistinct.strengths_eq accepted also_accepted
    have functions_eq : (Sugeno.mk first).functionValues firstValues =
        (Sugeno.mk first).functionValues secondValues :=
      congrArg KeyMap.ofPositions (List.map_congr_left fun output member =>
        output.values_congr fun _ => indistinct.value_eq accepted also_accepted member)
    obtain ⟨inputs, rfl⟩ := indistinct.exists_inputs
    exact congrArg₂ (Sugeno.mk first).combine strengths_eq functions_eq

/-- A rule base over two inputs; its only rule mentions the first term of the food. -/
def tasting {ω : Type} (good : FuzzySet Float) (outputs : List ω) : RuleBase Float ω where
  norms := default
  inputs := [⟨"food", 1, 9, by decide, [⟨"good", good⟩, ⟨"cold", .constant 0.25⟩]⟩,
    ⟨"service", 1, 9, by decide, [⟨"slow", .triangular 1 3 9⟩]⟩]
  outputs := outputs
  rules := [.ofStatement ⟨.group .or true [.leaf ⟨0, 0, false, some .very⟩,
    .leaf ⟨0, 0, true, none⟩], ⟨0, 0, false⟩⟩]

def tastedTips : List (LinguisticVariable Float) :=
  [⟨"tip", 2, 12, by decide, [⟨"high", .triangular 2 7 12⟩]⟩]

def servedTips : List (AffineVariable Float) :=
  [⟨"tip", [⟨"high", .ofList [(1, 2)], 1⟩]⟩]

theorem tasting_mentions {ω : Type} {good : FuzzySet Float} {outputs : List ω} {input term : Nat} :
    (tasting good outputs).Mentions input term ↔ input = 0 ∧ term = 0 := by
  simp [RuleBase.Mentions, tasting, Rule.ofStatement, Condition.propositions,
    Condition.propositionsOf, eq_comm]

theorem tasting_indistinct {ω : Type} [OutputVariable ω] {outputs : List ω}
    {good other : FuzzySet Float} {food changed : Float}
    (same : good.degree food = other.degree changed)
    (service : Float) (read : ∀ output ∈ outputs, OutputVariable.referenced output ⊆ [1]) :
    (tasting good outputs).Indistinct (tasting other outputs)
      (.ofList [(0, food), (1, service)]) (.ofList [(0, changed), (1, service)]) where
  norms := rfl
  outputs := rfl
  rules := rfl
  inputs := rfl
  degrees input term mentioned := by
    obtain ⟨rfl, rfl⟩ := tasting_mentions.1 mentioned
    exact congrArg some same
  values output member key referenced _ := by
    obtain rfl := List.mem_singleton.1 (read output member referenced)
    rfl

theorem tasting_accepts {ω : Type} {good : FuzzySet Float} {outputs : List ω}
    {food service : Float} (food_inside : 1 ≤ food ∧ food ≤ 9)
    (service_inside : 1 ≤ service ∧ service ≤ 9) :
    (tasting good outputs).validate (.ofList [(0, food), (1, service)]) = .ok () := by
  have food_found : (KeyMap.ofList [(0, food), (1, service)]).get? 0 = some food := rfl
  have service_found : (KeyMap.ofList [(0, food), (1, service)]).get? 1 = some service := rfl
  have counted : (KeyMap.ofList [(0, food), (1, service)]).size =
      (tasting good outputs).inputs.length := rfl
  rw [RuleBase.validate, if_pos counted]
  simp [tasting, RuleBase.checkValues, food_found, service_found, LinguisticVariable.contains,
    food_inside, service_inside]

/-- Another triangle of the food and another value give the same degree, so nothing changes. -/
theorem tastings_agree :
    (∃ results,
      (Mamdani.mk (tasting (.triangular 1 5 9) tastedTips) .product .sum .bisector).calculate
        (.ofList [(0, 3), (1, 4)]) = .ok results ∧
      (Mamdani.mk (tasting (.triangular 3 7 9) tastedTips) .product .sum .bisector).calculate
        (.ofList [(0, 5), (1, 4)]) = .ok results) ∧
    (Mamdani.mk (tasting (.triangular 1 5 9) tastedTips) .product .sum .bisector).calculate
        (.ofList [(0, 3), (1, 4)]) =
      (Mamdani.mk (tasting (.triangular 1 5 9) tastedTips) .product .sum .bisector).calculate
        (.ofList [(0, 3), (1, 8)]) ∧
    (Sugeno.mk (tasting (.triangular 1 5 9) servedTips)).calculate (.ofList [(0, 3), (1, 4)]) =
      (Sugeno.mk (tasting (.triangular 3 7 9) servedTips)).calculate (.ofList [(0, 5), (1, 4)]) ∧
    (Sugeno.mk ((tasting (.triangular 1 5 9) servedTips).recalibrate 0 1 (.constant 1))).calculate
        (.ofList [(0, 3), (1, 4)]) =
      (Sugeno.mk (tasting (.triangular 1 5 9) servedTips)).calculate
        (.ofList [(0, 3), (1, 4)]) := by
  obtain ⟨by_mamdani, by_sugeno⟩ := calculate_decided_by_mentions (α := Float)
  have tasted := by_mamdani .product .sum .bisector
  have same : FuzzySet.degree (3 : Float) (.triangular 1 5 9) =
      FuzzySet.degree 5 (.triangular 3 7 9) := by decide +kernel
  have accepted {ω : Type} (good : FuzzySet Float) (outputs : List ω) :
      (tasting good outputs).validate (.ofList [(0, 3), (1, 4)]) = .ok () :=
    tasting_accepts (by decide) (by decide)
  have changed_accepted {ω : Type} (good : FuzzySet Float) (outputs : List ω) :
      (tasting good outputs).validate (.ofList [(0, 5), (1, 4)]) = .ok () :=
    tasting_accepts (by decide) (by decide)
  have alike {ω : Type} [OutputVariable ω] (outputs : List ω)
      (read : ∀ output ∈ outputs, OutputVariable.referenced output ⊆ [1]) :
      (tasting (.triangular 1 5 9) outputs).Indistinct (tasting (.triangular 3 7 9) outputs)
        (.ofList [(0, 3), (1, 4)]) (.ofList [(0, 5), (1, 4)]) := tasting_indistinct same 4 read
  have unserved (term : Nat) : ¬(tasting (.triangular 1 5 9) tastedTips).Mentions 1 term :=
    fun mentioned => absurd (tasting_mentions.1 mentioned).1 (by decide)
  have elsewhere : ∀ other, other ≠ 1 →
      (KeyMap.ofList [(0, (3 : Float)), (1, 4)]).get? other =
        (KeyMap.ofList [(0, 3), (1, 8)]).get? other := by
    intro other different
    change ((KeyMap.empty.insert 0 3).insert 1 4).get? other =
      ((KeyMap.empty.insert 0 3).insert 1 8).get? other
    simp only [KeyMap.get?_insert, if_neg different]
  have agree := tasted.of_indistinct (alike tastedTips fun _ _ => List.nil_subset _)
    (accepted _ _) (changed_accepted _ _)
  obtain ⟨results, calculated⟩ := tasted.succeeds (List.cons_ne_nil _ _)
    (accepted (.triangular 1 5 9) tastedTips)
  refine ⟨⟨results, calculated, agree.symm.trans calculated⟩, ?_, ?_, ?_⟩
  · exact tasted.of_unused_input unserved (fun _ _ => nofun) elsewhere (accepted _ _)
      (tasting_accepts (by decide) (by decide))
  · exact by_sugeno.of_indistinct (alike servedTips (by decide)) (accepted _ _)
      (changed_accepted _ _)
  · refine by_sugeno.of_unused_term (fun mentioned => ?_)
      (RuleBase.adjustInput_recalibrate _ 0 1 (.constant 1))
    exact absurd (tasting_mentions.1 mentioned).2 (by decide)

end FuzzyControl
