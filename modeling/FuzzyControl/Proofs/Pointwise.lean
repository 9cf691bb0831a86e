import FuzzyControl.Proofs.Calculation
import FuzzyControl.Proofs.Degree
import FuzzyControl.Proofs.Invariant
import FuzzyControl.Scalar.Rational

/-!
# Mamdani inference point by point

A controller builds nested fuzzy sets, clamps their degrees at every level and samples the
outermost sets.  In exact arithmetic this amounts to folding, at every sample, what the
rules of one output contribute there.
-/

namespace FuzzyControl

open Scalar LawfulDegrees

namespace Mamdani

variable {α : Type} [Scalar α]

def impliedAt (self : Mamdani α) (memberships : Memberships α) (x : α) (rule : Rule α) : α :=
  self.implication.link.apply (rule.condition.degree self.norms memberships * rule.weight)
    ((self.concludedSet rule.conclusion).degree x)

/-- The contributions of all rules on one output at one abscissa, folded in rule order. -/
def aggregatedAt (self : Mamdani α) (memberships : Memberships α) (output : Nat) (x : α) : α :=
  self.aggregation.link.fold ((self.rulesOn output).map (self.impliedAt memberships x))

def pointwiseValue (self : Mamdani α) (memberships : Memberships α) (key : Nat)
    (output : LinguisticVariable α) : α :=
  self.defuzzification.reduce ((Grid.spanning output.low output.high 101).rest.map
    fun x => (x, self.aggregatedAt memberships key x))

variable [LawfulDegrees α] {self : Mamdani α} {memberships : Memberships α}

theorem degree_implied {rule : Rule α} {strength : α} (inside : IsDegree strength) (x : α) :
    (self.implied rule strength).degree x =
      self.implication.link.apply strength ((self.concludedSet rule.conclusion).degree x) := by
  have concluded := (self.concludedSet rule.conclusion).isDegree_degree x
  have shaped := isDegree_apply self.implication.link inside concluded
  simp only [implied, FuzzySet.degree, FuzzySet.degrees, Link.fold, List.foldl_cons,
    List.foldl_nil, clampUnit_eq inside, toDegree_eq inside, toDegree_eq shaped]

/-- Neither the nesting nor the clamping of the implied sets changes their fold. -/
theorem degree_aggregateOn (inside : ∀ rule ∈ self.rules, IsDegree (self.strength memberships rule))
    (output : Nat) (x : α) :
    (self.aggregateOn (self.implicate (self.strengths memberships)) output).degree x =
      self.aggregatedAt memberships output x := by
  have degrees_eq : ((self.rulesOn output).map fun rule =>
      (self.implied rule (self.strength memberships rule)).degree x) =
        (self.rulesOn output).map (self.impliedAt memberships x) := by
    refine List.map_congr_left fun rule member => ?_
    exact degree_implied (inside rule (List.mem_of_mem_filter member)) x
  have shaped : ∀ degree ∈ (self.rulesOn output).map (self.impliedAt memberships x),
      IsDegree degree := by
    rw [← degrees_eq]
    intro degree member
    obtain ⟨rule, _, rfl⟩ := List.mem_map.1 member
    exact FuzzySet.isDegree_degree _ x
  rw [aggregateOn_implicate, FuzzySet.degree, FuzzySet.degrees_eq_map, List.map_map]
  exact (congrArg (fun degrees => toDegree (Link.fold _ degrees)) degrees_eq).trans
    (toDegree_eq (Link.isDegree_fold _ shaped))

/-- A controller whose rules fire with degrees infers the pointwise values. -/
theorem crispOn_eq (inside : ∀ rule ∈ self.rules, IsDegree (self.strength memberships rule))
    (key : Nat) (output : LinguisticVariable α) :
    self.crispOn memberships key output = self.pointwiseValue memberships key output := by
  rw [crispOn, pointwiseValue, Defuzzification.crisp, Defuzzification.samples]
  simp only [degree_aggregateOn inside]
  rfl

omit [LawfulDegrees α] in
theorem concludedSet_eq_of_sound (sound : self.toRuleBase.Sound) {rule : Rule α}
    (member : rule ∈ self.rules) :
    ∃ output term, self.outputs[rule.conclusion.output]? = some output ∧
      output.terms[rule.conclusion.value]? = some term ∧
        self.concludedSet rule.conclusion = term.set := by
  obtain ⟨output, term, declared, found⟩ := sound.exists_term member
  refine ⟨output, term, declared, found, ?_⟩
  rw [concludedSet, declared, Option.bind_some, found]

end Mamdani

/--
In exact arithmetic a controller with rules that operations have made infers one value for
each declared output and for nothing else: the reduction of what its rules contribute at each
sample.  Every rule contributes the degree of a declared term.
-/
theorem calculate_eq_pointwise {K : Type} [Field K] [LinearOrder K] [IsStrictOrderedRing K]
    (functions : Elementary K) (bounded : functions.Bounded) :
    letI := functions.scalar
    ∀ self : Mamdani K, self.toRuleBase.Reachable →
      ∀ values : KeyMap K, self.validate values = .ok () → self.rules ≠ [] →
        (∃ results, self.calculate values = .ok results ∧
          results.keys = List.range self.outputs.length ∧
          ∀ key output, self.outputs[key]? = some output →
            results.get? key = some (self.defuzzification.reduce
              ((Grid.spanning output.low output.high 101).rest.map fun x =>
                (x, self.aggregatedAt (self.memberships values) key x)))) ∧
        ∀ rule ∈ self.rules, ∃ output term,
          self.outputs[rule.conclusion.output]? = some output ∧
          output.terms[rule.conclusion.value]? = some term ∧
          self.concludedSet rule.conclusion = term.set := by
  let := functions.scalar
  have lawful := bounded.lawfulDegrees
  intro self reachable values accepted some_rule
  have sound := reachable.sound isDegree_one
  have inside := self.isDegree_strengths values sound.weighted
  refine ⟨?_, fun rule member => Mamdani.concludedSet_eq_of_sound sound member⟩
  rw [self.calculate_eq_inferWith]
  refine ⟨_, RuleBase.inferWith_eq_ok some_rule accepted _,
    KeyMap.keys_ofPositions_mapIdx _ _, fun key output declared => ?_⟩
  rw [KeyMap.get?_ofPositions_mapIdx declared, Mamdani.crispOn_eq inside, Mamdani.pointwiseValue]

def growing (name term : String) : LinguisticVariable ℚ :=
  ⟨name, 0, 20, by decide +kernel, [⟨term, .triangular 0 20 20⟩]⟩

/-- Operations after which no rule is on the wine; the last concludes on nothing and fails. -/
def sharingOperations :
    List (Operation ℚ (LinguisticVariable ℚ) (LinguisticVariable.Adjustment ℚ)) :=
  [.addInput (growing "food" "good"),
    .addOutput (growing "tip" "high"),
    .addOutput (growing "wine" "red"),
    .addRule (.ofStatement ⟨.leaf ⟨0, 0, false, some .very⟩, ⟨0, 0, false⟩⟩),
    .addRule (.ofStatement ⟨.leaf ⟨0, 0, true, none⟩, ⟨0, 0, false⟩⟩),
    .addRule (.ofStatement ⟨.leaf ⟨0, 0, false, none⟩, ⟨0, 1, false⟩⟩)]

def sharing : Mamdani ℚ :=
  ⟨(RuleBase.empty default).performAll sharingOperations, .product, .sum, .centroid⟩

theorem sharing_infers :
    sharing.rules.length = 2 ∧
      ∃ results, sharing.calculate (.ofList [(0, 5)]) = .ok results ∧
        results.keys = [0, 1] ∧ results.get? 0 = some (66650 / 4999) ∧
        results.get? 1 = some 0 := by
  have built : ∀ operation ∈ sharingOperations, operation.Built := by
    simp [sharingOperations, Operation.Built, Rule.Built.ofStatement]
  have two : sharing.rules.length = 2 := by decide +kernel
  have some_rule : sharing.rules ≠ [] := by
    intro none_left
    simp [none_left] at two
  have accepted : sharing.validate (.ofList [(0, 5)]) = .ok () :=
    Outcome.eq_ok_of_isOk (by decide +kernel)
  obtain ⟨⟨results, calculated, keys_eq, reduced⟩, _⟩ :=
    calculate_eq_pointwise Elementary.rational Elementary.rational_bounded sharing
      ⟨default, sharingOperations, built, rfl⟩ (.ofList [(0, 5)]) accepted some_rule
  have outputs_eq : List.range sharing.outputs.length = [0, 1] := by decide +kernel
  exact ⟨two, results, calculated, keys_eq.trans outputs_eq,
    (reduced 0 _ rfl).trans (by decide +kernel), (reduced 1 _ rfl).trans (by decide +kernel)⟩

end FuzzyControl
