import Mathlib.Data.List.Basic
import FuzzyControl.Mamdani
import FuzzyControl.Proofs.Outcome
import FuzzyControl.Sugeno

/-!
# When and for which outputs controllers answer

A controller refuses to infer without rules and from input values that are not accepted.
Otherwise it gives one value to every output, which comes from the rules on that output.
-/

namespace FuzzyControl

theorem map_range_length {β γ : Type} (items : List β) (make : Nat → γ) :
    (List.range items.length).map make = items.mapIdx fun key _ => make key := by
  refine List.ext_getElem? fun key => ?_
  rw [List.getElem?_map, List.getElem?_mapIdx]
  by_cases less : key < items.length
  · rw [List.getElem?_range less, List.getElem?_eq_getElem less]
    rfl
  · rw [List.getElem?_eq_none (by rw [List.length_range]; omega),
      List.getElem?_eq_none (Nat.le_of_not_lt less)]
    rfl

theorem zip_map_zip {β γ δ : Type} (first : List β) (second : List γ) (change : β × γ → δ) :
    first.zip ((first.zip second).map change) =
      (first.zip second).map fun entry => (entry.1, change entry) := by
  induction first generalizing second with
  | nil => rfl
  | cons head rest ih =>
      cases second with
      | nil => rfl
      | cons own others => exact congrArg (_ :: ·) (ih others)

namespace KeyMap

variable {β γ δ : Type}

theorem eq_of_entries_eq {first second : KeyMap β} (same : first.entries = second.entries) :
    first = second := by
  cases first
  cases second
  cases same
  rfl

theorem entries_filterMap (change : Nat → β → Option γ) (map : KeyMap β) :
    (map.filterMap change).entries =
      map.entries.filterMap fun entry => (change entry.1 entry.2).map (entry.1, ·) :=
  rfl

theorem entries_ofPositions_mapIdx (items : List β) (make : Nat → β → γ) :
    (ofPositions (items.mapIdx make)).entries =
      items.zipIdx.map fun entry => (entry.2, make entry.2 entry.1) := by
  refine List.ext_getElem? fun key => ?_
  simp only [ofPositions, List.getElem?_map, List.getElem?_zipIdx, List.getElem?_mapIdx,
    Option.map_map, Nat.zero_add]
  rfl

/-- Changing every value at its position is the same as putting the changed values there. -/
theorem filterMap_ofPositions_mapIdx {items : List β} {make : Nat → β → γ}
    {change : Nat → γ → Option δ} {changed : Nat → β → δ}
    (defined : ∀ (key : Nat) (item : β), items[key]? = some item →
      change key (make key item) = some (changed key item)) :
    (ofPositions (items.mapIdx make)).filterMap change = ofPositions (items.mapIdx changed) := by
  refine eq_of_entries_eq ?_
  have kept : ∀ entry ∈ items.zipIdx,
      (change entry.2 (make entry.2 entry.1)).map (entry.2, ·) =
        some (entry.2, changed entry.2 entry.1) := by
    intro entry member
    rw [defined entry.2 entry.1 (List.mem_zipIdx_iff_getElem?.1 member), Option.map_some]
  rw [entries_filterMap, entries_ofPositions_mapIdx, entries_ofPositions_mapIdx,
    List.filterMap_map, ← List.filterMap_eq_map']
  exact List.filterMap_congr kept

theorem keys_ofPositions_mapIdx (items : List β) (make : Nat → β → γ) :
    (ofPositions (items.mapIdx make)).keys = List.range items.length := by
  rw [keys, entries_ofPositions_mapIdx, List.map_map, List.range_eq_range']
  exact List.zipIdx_map_snd 0 items

theorem get?_ofPositions_mapIdx {items : List β} {key : Nat} {item : β}
    (declared : items[key]? = some item) (make : Nat → β → γ) :
    (ofPositions (items.mapIdx make)).get? key = some (make key item) := by
  rw [get?_ofPositions, List.getElem?_mapIdx, declared, Option.map_some]

end KeyMap

namespace RuleBase

variable {α ω β : Type} [Scalar α] {self : RuleBase α ω} {values : KeyMap α}

/-! ## Checks -/

/-- Inference from the values fails with the cause: rules are asked for before the values. -/
def Refuses (self : RuleBase α ω) (values : KeyMap α) (cause : Error α) : Prop :=
  self.rules = [] ∧ cause = .noRules ∨ self.rules ≠ [] ∧ self.validate values = .error cause

/-- The checks of inference, followed by a computation that cannot fail. -/
def inferWith (self : RuleBase α ω) (values : KeyMap α) (finish : Memberships α → β) :
    Except (Error α) β := do
  self.checkRules
  let memberships ← self.fuzzify values
  .ok (finish memberships)

theorem checkRules_eq_ok (some_rule : self.rules ≠ []) : self.checkRules = .ok () := by
  rw [checkRules, List.isEmpty_eq_false_iff.2 some_rule]
  rfl

theorem inferWith_eq_ok (some_rule : self.rules ≠ []) (accepted : self.validate values = .ok ())
    (finish : Memberships α → β) :
    self.inferWith values finish = .ok (finish (self.memberships values)) := by
  rw [inferWith, checkRules_eq_ok some_rule, fuzzify, accepted]
  rfl

theorem inferWith_eq_error_iff {finish : Memberships α → β} {cause : Error α} :
    self.inferWith values finish = .error cause ↔ self.Refuses values cause := by
  rw [inferWith, Refuses]
  by_cases no_rule : self.rules = []
  · have fails : self.checkRules = .error .noRules := by
      rw [checkRules, no_rule]
      rfl
    rw [fails, Outcome.error_bind, Except.error.injEq]
    simp only [no_rule, ne_eq, not_true_eq_false, false_and, or_false, true_and, eq_comm]
  · rw [checkRules_eq_ok no_rule, Outcome.ok_bind, Outcome.bind_ok_eq_error_iff, fuzzify,
      Outcome.bind_ok_eq_error_iff]
    simp only [no_rule, ne_eq, not_false_eq_true, true_and, false_and, false_or]

/-! ## Contributions -/

def rulesOn (self : RuleBase α ω) (output : Nat) : List (Rule α) :=
  self.rules.filter (·.conclusion.output == output)

theorem mem_rulesOn_iff {rule : Rule α} {output : Nat} :
    rule ∈ self.rulesOn output ↔ rule ∈ self.rules ∧ rule.conclusion.output = output := by
  rw [rulesOn, List.mem_filter, beq_iff_eq]

/-- What is computed rule by rule stays with its rule, and reaches the output of the rule. -/
theorem concludingOn_eq (self : RuleBase α ω) (output : Nat) (contribution : Rule α → β) :
    self.concludingOn output (self.rules.map contribution) =
      (self.rulesOn output).map fun rule => (rule, contribution rule) := by
  rw [concludingOn, ← List.map_prod_left_eq_zip, List.filter_map]
  rfl

/-- What is computed from contributions stays with the rules that they come from. -/
theorem concludingOn_zip {γ : Type} (self : RuleBase α ω) (output : Nat) (contributions : List β)
    (change : Rule α × β → γ) :
    self.concludingOn output ((self.rules.zip contributions).map change) =
      (self.concludingOn output contributions).map fun entry => (entry.1, change entry) := by
  rw [concludingOn, zip_map_zip, List.filter_map]
  rfl

end RuleBase

/-! ## Mamdani controllers -/

namespace Mamdani

variable {α : Type} [Scalar α]

/-- The implied sets of one output, in the order of its rules. -/
theorem aggregateOn_implicate (self : Mamdani α) (memberships : Memberships α) (key : Nat) :
    self.aggregateOn (self.implicate (self.strengths memberships)) key =
      .composite self.aggregation.link ((self.rulesOn key).map fun rule =>
        self.implied rule (self.strength memberships rule)) := by
  have implicate_eq : self.implicate (self.strengths memberships) =
      self.rules.map fun rule => self.implied rule (self.strength memberships rule) := by
    rw [implicate, RuleBase.strengths, ← List.map_prod_left_eq_zip, List.map_map]
    rfl
  rw [aggregateOn, implicate_eq, RuleBase.concludingOn_eq, List.map_map]
  rfl

def crispOn (self : Mamdani α) (memberships : Memberships α) (key : Nat)
    (output : LinguisticVariable α) : α :=
  self.defuzzification.crisp (self.aggregateOn (self.implicate (self.strengths memberships)) key)
    output.low output.high

theorem calculate_eq_inferWith (self : Mamdani α) (values : KeyMap α) :
    self.calculate values = self.inferWith values fun memberships =>
      .ofPositions (self.outputs.mapIdx (self.crispOn memberships)) := by
  have defuzzified (memberships : Memberships α) :
      self.defuzzify (self.aggregate (self.implicate (self.strengths memberships))) =
        .ofPositions (self.outputs.mapIdx (self.crispOn memberships)) := by
    rw [defuzzify, aggregate, map_range_length]
    refine KeyMap.filterMap_ofPositions_mapIdx fun key output declared => ?_
    rw [declared]
    rfl
  simp only [calculate, defuzzified]
  rfl

end Mamdani

/-! ## Sugeno controllers -/

namespace Sugeno

variable {α : Type} [Scalar α]

def concluded (self : Sugeno α) (values : KeyMap α) (rule : Rule α) : α :=
  concludedValue (self.functionValues values) rule.conclusion

/-- Strengths weigh the functions of their own rules. -/
theorem combineOn_eq (self : Sugeno α) (values : KeyMap α) (strength : Rule α → α) (key : Nat) :
    self.combineOn (self.rules.map strength) (self.functionValues values) key =
      weightedMean
        ((self.rulesOn key).map fun rule => (self.concluded values rule, strength rule)) := by
  rw [combineOn, RuleBase.concludingOn_eq, List.map_map]
  rfl

def meanOn (self : Sugeno α) (memberships : Memberships α) (values : KeyMap α) (key : Nat) : α :=
  weightedMean ((self.rulesOn key).map fun rule =>
    (self.concluded values rule, self.strength memberships rule))

theorem calculate_eq_inferWith (self : Sugeno α) (values : KeyMap α) :
    self.calculate values = self.inferWith values fun memberships =>
      .ofPositions (self.outputs.mapIdx fun key _ => self.meanOn memberships values key) := by
  have combined (memberships : Memberships α) :
      self.combine (self.strengths memberships) (self.functionValues values) =
        .ofPositions (self.outputs.mapIdx fun key _ => self.meanOn memberships values key) := by
    rw [combine, map_range_length]
    simp only [RuleBase.strengths, combineOn_eq, meanOn]
  simp only [calculate, combined]
  rfl

end Sugeno

end FuzzyControl
