import FuzzyControl.Mamdani
import FuzzyControl.Proofs.Calculation
import FuzzyControl.Proofs.Invariant
import FuzzyControl.Sugeno

/-!
# Inference without stand-ins

Inference puts a default wherever something that it looks up is missing.  Here every
such step fails instead, and for sound rule bases none of them does.
-/

namespace FuzzyControl

theorem mapM_eq_some {β γ : Type} {change? : β → Option γ} {change : β → γ} {entries : List β}
    (defined : ∀ entry ∈ entries, change? entry = some (change entry)) :
    entries.mapM change? = some (entries.map change) := by
  induction entries with
  | nil => rfl
  | cons first rest ih =>
      rw [List.mapM_cons, defined first List.mem_cons_self,
        ih fun entry member => defined entry (List.mem_cons_of_mem _ member)]
      rfl

variable {α : Type} [Scalar α]

/-! ## Conditions -/

namespace Proposition

def degree? (memberships : Memberships α) (proposition : Proposition) : Option α :=
  (memberships.degree? proposition.input proposition.term).map fun plain =>
    complementIf proposition.negated
      (match proposition.hedge with
      | some hedge => hedge.apply plain
      | none => plain)

theorem degree?_eq_some {memberships : Memberships α} {proposition : Proposition} {plain : α}
    (known : memberships.degree? proposition.input proposition.term = some plain) :
    proposition.degree? memberships = some (proposition.degree memberships) := by
  rw [degree?, degree, known]
  rfl

end Proposition

namespace Link

/-- Folds degrees of which there is at least one. -/
def fold? (link : Link) : List α → Option α
  | [] => none
  | first :: rest => some (rest.foldl link.apply first)

theorem fold?_eq_some (link : Link) {degrees : List α} (nonempty : degrees ≠ []) :
    link.fold? degrees = some (link.fold degrees) := by
  cases degrees with
  | nil => exact absurd rfl nonempty
  | cons first rest => rfl

end Link

namespace Condition

mutual

/-- The degree of a condition without empty groups whose terms all have degrees. -/
def degree? (norms : Norms) (memberships : Memberships α) : Condition → Option α
  | leaf proposition => proposition.degree? memberships
  | group connective negated children =>
      match degrees? norms memberships children with
      | none => none
      | some degrees => ((norms.link connective).fold? degrees).map (complementIf negated)

def degrees? (norms : Norms) (memberships : Memberships α) : List Condition → Option (List α)
  | [] => some []
  | child :: rest =>
      match degree? norms memberships child, degrees? norms memberships rest with
      | some first, some others => some (first :: others)
      | _, _ => none

end

section Degrees

variable {norms : Norms} {memberships : Memberships α}

mutual

theorem degree?_eq_some (condition : Condition) (nonempty : condition.hasEmptyGroup = false)
    (known : ∀ proposition ∈ condition.propositions,
      ∃ plain, memberships.degree? proposition.input proposition.term = some plain) :
    condition.degree? norms memberships = some (condition.degree norms memberships) := by
  match condition with
  | leaf proposition =>
      obtain ⟨plain, found⟩ := known proposition (List.mem_singleton_self _)
      exact Proposition.degree?_eq_some found
  | group connective negated children =>
      rw [hasEmptyGroup, Bool.or_eq_false_iff] at nonempty
      have some_child : degrees norms memberships children ≠ [] := by
        rw [degrees_eq_map]
        intro none_left
        rw [List.map_eq_nil_iff.1 none_left] at nonempty
        cases nonempty.1
      rw [degree?, degree, degrees?_eq_some children nonempty.2 known]
      exact congrArg (Option.map (complementIf negated)) (Link.fold?_eq_some _ some_child)

theorem degrees?_eq_some (children : List Condition) (nonempty : anyEmptyGroup children = false)
    (known : ∀ proposition ∈ propositionsOf children,
      ∃ plain, memberships.degree? proposition.input proposition.term = some plain) :
    degrees? norms memberships children = some (degrees norms memberships children) := by
  match children with
  | [] => rfl
  | child :: rest =>
      rw [anyEmptyGroup, Bool.or_eq_false_iff] at nonempty
      have first := degree?_eq_some child nonempty.1 fun proposition member =>
        known proposition (List.mem_append_left _ member)
      have others := degrees?_eq_some rest nonempty.2 fun proposition member =>
        known proposition (List.mem_append_right _ member)
      rw [degrees?, degrees, first, others]

end

end Degrees

end Condition

/-! ## Rule bases -/

namespace RuleBase

variable {ω β : Type}

def memberships? (self : RuleBase α ω) (values : KeyMap α) : Option (Memberships α) :=
  self.inputs.zipIdx.mapM fun entry => (values.get? entry.2).map entry.1.fuzzify

def strength? (self : RuleBase α ω) (memberships : Memberships α) (rule : Rule α) : Option α :=
  (rule.condition.degree? self.norms memberships).map (· * rule.weight)

def strengths? (self : RuleBase α ω) (memberships : Memberships α) : Option (List α) :=
  self.rules.mapM (self.strength? memberships)

/-- Files contributions under the outputs that their rules conclude on, of which each has a row. -/
def file? : List (List β) → List (Rule α × β) → Option (List (List β))
  | rows, [] => some rows
  | rows, entry :: rest =>
      if entry.1.conclusion.output < rows.length then
        file? (rows.modify entry.1.conclusion.output (· ++ [entry.2])) rest
      else none

/-- The contributions to every output, if no rule concludes on a missing one. -/
def byOutput? (self : RuleBase α ω) (contributions : List β) : Option (List (List β)) :=
  file? (List.replicate self.outputs.length []) (self.rules.zip contributions)

theorem mem_zip_values {values : KeyMap α} {key : Nat} {inputs : List (LinguisticVariable α)}
    (accepted : checkValues values key inputs = .ok ()) :
    ∀ entry ∈ inputs.zipIdx key, ∃ value, values.get? entry.2 = some value := by
  induction inputs generalizing key with
  | nil => exact fun _ member => nomatch member
  | cons input rest ih =>
      intro entry member
      rw [checkValues] at accepted
      cases found : values.get? key with
      | none => simp [found] at accepted
      | some value =>
          simp only [found] at accepted
          split at accepted
          · rw [List.zipIdx_cons] at member
            rcases List.mem_cons.1 member with rfl | later
            · exact ⟨value, found⟩
            · exact ih accepted entry later
          · cases accepted

/-- Accepted values give every term a degree. -/
theorem memberships?_eq_some {self : RuleBase α ω} {values : KeyMap α}
    (accepted : self.validate values = .ok ()) :
    self.memberships? values = some (self.memberships values) := by
  unfold validate at accepted
  split at accepted
  · refine mapM_eq_some fun entry member => ?_
    obtain ⟨value, found⟩ := mem_zip_values accepted entry member
    rw [found]
    rfl
  · cases accepted

theorem degree?_memberships {self : RuleBase α ω} (values : KeyMap α) {key term : Nat}
    {input : LinguisticVariable α} (declared : self.inputs[key]? = some input)
    (less : term < input.terms.length) :
    ∃ plain, (self.memberships values).degree? key term = some plain := by
  have within : term < (input.fuzzify ((values.get? key).getD 0)).length := by
    rw [LinguisticVariable.fuzzify, List.length_map]
    exact less
  refine ⟨(input.fuzzify ((values.get? key).getD 0))[term], ?_⟩
  rw [Memberships.degree?, memberships, List.getElem?_map, List.getElem?_zipIdx, declared,
    Option.map_some, Option.map_some, Option.bind_some, Nat.zero_add]
  exact List.getElem?_eq_getElem within

omit [Scalar α] in
theorem file?_eq_some (rows : List (List β)) (entries : List (Rule α × β))
    (placed : ∀ entry ∈ entries, entry.1.conclusion.output < rows.length) :
    file? rows entries = some (rows.mapIdx fun output row =>
      row ++ (entries.filter (·.1.conclusion.output == output)).map (·.2)) := by
  induction entries generalizing rows with
  | nil =>
      rw [file?, Option.some.injEq]
      refine List.ext_getElem? fun output => ?_
      rw [List.getElem?_mapIdx]
      cases rows[output]? with
      | none => rfl
      | some row => exact congrArg some (List.append_nil row).symm
  | cons entry rest ih =>
      have placed_rest : ∀ other ∈ rest, other.1.conclusion.output <
          (rows.modify entry.1.conclusion.output (· ++ [entry.2])).length := by
        intro other member
        rw [List.length_modify]
        exact placed other (List.mem_cons_of_mem _ member)
      -- a row holds what was filed so far, in front of all that is still to come for it
      rw [file?, if_pos (placed entry List.mem_cons_self), ih _ placed_rest, Option.some.injEq]
      refine List.ext_getElem? fun output => ?_
      rw [List.getElem?_mapIdx, List.getElem?_mapIdx, List.getElem?_modify, List.filter_cons]
      cases rows[output]? with
      | none => simp
      | some row =>
          by_cases here : entry.1.conclusion.output = output
          · simp [here]
          · simp [here, beq_false_of_ne here]

theorem byOutput?_eq_some {self : RuleBase α ω} (contributions : List β)
    (placed : ∀ rule ∈ self.rules, rule.conclusion.output < self.outputs.length) :
    self.byOutput? contributions = some ((List.range self.outputs.length).map fun output =>
      (self.concludingOn output contributions).map (·.2)) := by
  have filed := file?_eq_some (List.replicate self.outputs.length [])
    (self.rules.zip contributions) fun entry member => by
      rw [List.length_replicate]
      exact placed entry.1 (List.of_mem_zip member).1
  rw [byOutput?, filed, Option.some.injEq]
  refine List.ext_getElem? fun output => ?_
  rw [List.getElem?_mapIdx, List.getElem?_map, List.getElem?_replicate]
  by_cases less : output < self.outputs.length
  · rw [if_pos less, List.getElem?_range less]
    rfl
  · rw [if_neg less, List.getElem?_eq_none (by rw [List.length_range]; omega)]
    rfl

variable [OutputVariable ω]

/-- In a sound rule base every rule has a strength. -/
theorem strengths?_eq_some {self : RuleBase α ω} (sound : self.Sound) (values : KeyMap α) :
    self.strengths? (self.memberships values) = some (self.strengths (self.memberships values)) := by
  refine mapM_eq_some fun rule member => ?_
  have within := sound.within rule member
  have degree_eq : rule.condition.degree? self.norms (self.memberships values) =
      some (rule.condition.degree self.norms (self.memberships values)) := by
    refine Condition.degree?_eq_some _ within.nonempty fun proposition inside => ?_
    obtain ⟨input, declared, less⟩ := propositionWithin_iff.1 (within.premised proposition inside)
    exact degree?_memberships values declared less
  rw [strength?, degree_eq]
  rfl

theorem Sound.concludes {self : RuleBase α ω} (sound : self.Sound) :
    ∀ rule ∈ self.rules, rule.conclusion.output < self.outputs.length := by
  intro rule member
  obtain ⟨output, declared, _⟩ := conclusionWithin_iff.1 (sound.within rule member).concluded
  exact (List.getElem?_eq_some_iff.1 declared).1

end RuleBase

/-! ## Mamdani controllers -/

namespace Mamdani

def concludedSet? (self : Mamdani α) (conclusion : Conclusion) : Option (FuzzySet α) :=
  (self.outputs[conclusion.output]?.bind (·.terms[conclusion.value]?)).map (·.set)

def implied? (self : Mamdani α) (rule : Rule α) (strength : α) : Option (FuzzySet α) :=
  (self.concludedSet? rule.conclusion).map fun set =>
    .composite self.implication.link [.constant (Scalar.clampUnit strength), set]

def implicate? (self : Mamdani α) (strengths : List α) : Option (List (FuzzySet α)) :=
  (self.rules.zip strengths).mapM fun entry => self.implied? entry.1 entry.2

def aggregate? (self : Mamdani α) (implied : List (FuzzySet α)) : Option (KeyMap (FuzzySet α)) :=
  (self.byOutput? implied).map fun rows =>
    .ofPositions (rows.map (.composite self.aggregation.link))

/-- The crisp value of every output, if nothing that is looked up is missing. -/
def infer? (self : Mamdani α) (values : KeyMap α) : Option (KeyMap α) := do
  let memberships ← self.memberships? values
  let strengths ← self.strengths? memberships
  let implied ← self.implicate? strengths
  let aggregated ← self.aggregate? implied
  some (self.defuzzify aggregated)

variable {self : Mamdani α}

theorem implicate?_eq_some (sound : self.toRuleBase.Sound) (strengths : List α) :
    self.implicate? strengths = some (self.implicate strengths) := by
  refine mapM_eq_some fun entry member => ?_
  obtain ⟨output, term, declared, found⟩ := sound.exists_term (List.of_mem_zip member).1
  rw [implied?, concludedSet?, implied, concludedSet, declared, Option.bind_some, found]
  rfl

theorem aggregate?_eq_some (sound : self.toRuleBase.Sound) (implied : List (FuzzySet α)) :
    self.aggregate? implied = some (self.aggregate implied) := by
  rw [aggregate?, RuleBase.byOutput?_eq_some implied sound.concludes, Option.map_some,
    List.map_map]
  rfl

/-- A sound controller infers all outputs from accepted values, without any stand-in. -/
theorem infer?_eq_some (sound : self.toRuleBase.Sound) {values : KeyMap α}
    (accepted : self.validate values = .ok ()) :
    ∃ result, self.infer? values = some result ∧
      self.calculate values = if self.rules.isEmpty then .error .noRules else .ok result := by
  refine ⟨self.defuzzify (self.aggregate (self.implicate
    (self.strengths (self.memberships values)))), ?_, ?_⟩
  · simp only [infer?, RuleBase.memberships?_eq_some accepted, RuleBase.strengths?_eq_some sound,
      implicate?_eq_some sound, aggregate?_eq_some sound, Option.bind_eq_bind, Option.bind_some]
  · unfold calculate RuleBase.checkRules RuleBase.fuzzify
    rw [accepted]
    split <;> rfl

end Mamdani

/-! ## Sugeno controllers -/

namespace Sugeno

def concludedValue? (functionValues : KeyMap (List α)) (conclusion : Conclusion) : Option α :=
  (functionValues.get? conclusion.output).bind (·[conclusion.value]?)

def combine? (self : Sugeno α) (strengths : List α) (functionValues : KeyMap (List α)) :
    Option (KeyMap α) := do
  let weighted ← (self.rules.zip strengths).mapM fun entry =>
    (concludedValue? functionValues entry.1.conclusion).map fun value => (value, entry.2)
  let rows ← self.byOutput? weighted
  some (.ofPositions (rows.map weightedMean))

def infer? (self : Sugeno α) (values : KeyMap α) : Option (KeyMap α) := do
  let memberships ← self.memberships? values
  let strengths ← self.strengths? memberships
  self.combine? strengths (self.functionValues values)

variable {self : Sugeno α}

theorem concludedValue?_eq_some (sound : self.toRuleBase.Sound) (values : KeyMap α) {rule : Rule α}
    (member : rule ∈ self.rules) :
    concludedValue? (self.functionValues values) rule.conclusion =
      some (concludedValue (self.functionValues values) rule.conclusion) := by
  have within := (sound.within rule member).concluded
  obtain ⟨output, declared, less⟩ := RuleBase.conclusionWithin_iff.1 within
  have here : rule.conclusion.value < (output.values values).length := by
    simpa [OutputVariable.valueCount, OutputVariable.signature, AffineVariable.signature,
      AffineVariable.values] using less
  rw [concludedValue?, concludedValue, functionValues, KeyMap.get?_ofPositions,
    List.getElem?_map, declared, Option.map_some, Option.bind_some, List.getElem?_eq_getElem here]
  rfl

theorem combine?_eq_some (sound : self.toRuleBase.Sound) (strengths : List α) (values : KeyMap α) :
    self.combine? strengths (self.functionValues values) =
      some (self.combine strengths (self.functionValues values)) := by
  have weighted_eq : (self.rules.zip strengths).mapM (fun entry =>
      (concludedValue? (self.functionValues values) entry.1.conclusion).map
        fun value => (value, entry.2)) =
      some ((self.rules.zip strengths).map fun entry =>
        (concludedValue (self.functionValues values) entry.1.conclusion, entry.2)) := by
    refine mapM_eq_some fun entry member => ?_
    rw [concludedValue?_eq_some sound values (List.of_mem_zip member).1]
    rfl
  simp only [combine?, weighted_eq, Option.bind_eq_bind, Option.bind_some,
    RuleBase.byOutput?_eq_some _ sound.concludes, List.map_map, combine]
  refine congrArg (fun means => some (KeyMap.ofPositions means)) (List.map_congr_left ?_)
  intro output _
  rw [Function.comp_apply, combineOn, RuleBase.concludingOn_zip, List.map_map]
  rfl

/-- A sound controller infers all outputs from accepted values, without any stand-in. -/
theorem infer?_eq_some (sound : self.toRuleBase.Sound) {values : KeyMap α}
    (accepted : self.validate values = .ok ()) :
    ∃ result, self.infer? values = some result ∧
      self.calculate values = if self.rules.isEmpty then .error .noRules else .ok result := by
  refine ⟨self.combine (self.strengths (self.memberships values)) (self.functionValues values),
    ?_, ?_⟩
  · simp only [infer?, RuleBase.memberships?_eq_some accepted, RuleBase.strengths?_eq_some sound,
      combine?_eq_some sound, Option.bind_eq_bind, Option.bind_some]
  · unfold calculate RuleBase.checkRules RuleBase.fuzzify
    rw [accepted]
    split <;> rfl

end Sugeno

/-! ## Runs -/

/--
Every rule base that operations make of the empty one is sound, and the controllers over it
infer all outputs from accepted values without any stand-in; one has to be a degree, as it
is among doubles and in ordered fields.
-/
theorem sound_of_reachable (unit : Scalar.IsDegree (1 : α)) :
    (∀ {ω δ : Type} [OutputVariable ω] [AdjustableOutput α ω δ] [GrowingOutput α ω]
      (self : RuleBase α ω), self.Reachable → self.Sound) ∧
    (∀ self : Mamdani α, self.toRuleBase.Reachable →
      ∀ values, self.validate values = .ok () →
        ∃ result, self.infer? values = some result ∧
          self.calculate values = if self.rules.isEmpty then .error .noRules else .ok result) ∧
    (∀ self : Sugeno α, self.toRuleBase.Reachable →
      ∀ values, self.validate values = .ok () →
        ∃ result, self.infer? values = some result ∧
          self.calculate values = if self.rules.isEmpty then .error .noRules else .ok result) := by
  refine ⟨fun self reachable => reachable.sound unit, fun self reachable values accepted => ?_,
    fun self reachable values accepted => ?_⟩
  · exact Mamdani.infer?_eq_some (reachable.sound unit) accepted
  · exact Sugeno.infer?_eq_some (reachable.sound unit) accepted

/-- A rule of half weight on terms that are added later than the variables. -/
def halfRule : Rule Float :=
  ⟨⟨.leaf ⟨0, 2, false, none⟩, ⟨0, 1, false⟩⟩, 0.5⟩

/-- Operations that declare variables, adjust them and add rules; one of them fails. -/
def servingOperations :
    List (Operation Float (LinguisticVariable Float) (LinguisticVariable.Adjustment Float)) :=
  [.addInput RuleBase.food,
    .addOutput ⟨"tip", 0, 20, by decide, [⟨"low", .constant 0.5⟩]⟩,
    .addRuleText "if food is not bad then tip is low",
    .addRuleText "if food is superb then tip is high",
    .adjustInput 0 (.addTerm "superb" (.constant 1)),
    .adjustOutput 0 (.addTerm "high" (.constant 1)),
    .addRule halfRule]

def serving : Mamdani Float :=
  ⟨(RuleBase.empty default).performAll servingOperations, default, default, default⟩

theorem serving_infers :
    serving.rules.length = 2 ∧
      ∃ result, serving.infer? (.ofList [(0, 3)]) = some result ∧
        serving.calculate (.ofList [(0, 3)]) = .ok result := by
  have accepts : (Rule.ofStatement halfRule.toStatement).withWeight 0.5 = .ok halfRule := rfl
  have half_built : halfRule.Built := .withWeight (.ofStatement _) accepts
  have built : ∀ operation ∈ servingOperations, operation.Built := by
    simp [servingOperations, Operation.Built, half_built]
  have two : serving.rules.length = 2 := by decide +kernel
  have accepted : serving.validate (.ofList [(0, 3)]) = .ok () := by
    have succeeds : (serving.validate (.ofList [(0, 3)])).isOk = true := by decide +kernel
    cases outcome : serving.validate (.ofList [(0, 3)]) with
    | ok checked => rfl
    | error cause =>
        rw [outcome] at succeeds
        cases succeeds
  obtain ⟨result, inferred, calculated⟩ := (sound_of_reachable (by decide)).2.1 serving
    ⟨default, servingOperations, built, rfl⟩ (.ofList [(0, 3)]) accepted
  have some_rule : serving.rules.isEmpty = false := by
    cases shape : serving.rules with
    | nil => simp [shape] at two
    | cons first rest => rfl
  rw [some_rule] at calculated
  exact ⟨two, result, inferred, calculated⟩

end FuzzyControl
