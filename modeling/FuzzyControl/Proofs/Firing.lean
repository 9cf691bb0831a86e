import FuzzyControl.Proofs.Crisp
import FuzzyControl.Proofs.Mean
import FuzzyControl.Proofs.Pointwise

/-!
# What fires decides the outputs

In exact arithmetic the outputs depend on the strengths above zero and on what is concluded
with them, counted with multiplicity.  If sets are aggregated by their maximum, then not
even the multiplicity counts.
-/

namespace FuzzyControl

open Scalar LawfulDegrees

/-! ## Folds -/

section Fold

variable {β K : Type} [Field K] [LinearOrder K] (functions : Elementary K)

/-- Two lists of degrees have the same maximum if they have the same upper bounds. -/
theorem fold_maximum_congr {first second : List K} (first_nonneg : ∀ degree ∈ first, 0 ≤ degree)
    (second_nonneg : ∀ degree ∈ second, 0 ≤ degree)
    (same : ∀ bound, 0 ≤ bound →
      ((∀ degree ∈ first, degree ≤ bound) ↔ ∀ degree ∈ second, degree ≤ bound)) :
    letI := functions.scalar
    Link.maximum.fold first = Link.maximum.fold second := by
  let := functions.scalar
  refine eq_of_forall_ge_iff fun bound => ?_
  rw [functions.fold_maximum_le_iff first_nonneg, functions.fold_maximum_le_iff second_nonneg]
  exact and_congr_right (same bound)

namespace Aggregation

/-- Degrees that are zero may be left out. -/
theorem fold_map_filter (aggregation : Aggregation) {degree : β → K} {keep : β → Bool}
    {items : List β} (nonneg : ∀ item ∈ items, 0 ≤ degree item)
    (idle : ∀ item ∈ items, keep item = false → degree item = 0) :
    letI := functions.scalar
    aggregation.link.fold ((items.filter keep).map degree) =
      aggregation.link.fold (items.map degree) := by
  let := functions.scalar
  cases aggregation with
  | maximum =>
      refine fold_maximum_congr functions ?_ (List.forall_mem_map.2 nonneg) fun bound above => ?_
      · exact List.forall_mem_map.2 fun item kept => nonneg item (List.mem_of_mem_filter kept)
      · rw [List.forall_mem_map, List.forall_mem_map]
        refine ⟨fun bounded item member => ?_, fun bounded item kept =>
          bounded item (List.mem_of_mem_filter kept)⟩
        cases kept : keep item with
        | true => exact bounded item (List.mem_filter.2 ⟨member, kept⟩)
        | false => exact (idle item member kept).trans_le above
  | sum =>
      have product_eq : ((items.filter keep).map fun item => 1 - degree item).prod =
          (items.map fun item => 1 - degree item).prod :=
        prod_map_filter fun item member dropped => by rw [idle item member dropped, sub_zero]
      simp only [link, functions.fold_probabilisticSum, List.map_map, Function.comp_def, product_eq]

theorem fold_perm (aggregation : Aggregation) {first second : List K}
    (nonneg : ∀ degree ∈ first, 0 ≤ degree) (permuted : first.Perm second) :
    letI := functions.scalar
    aggregation.link.fold first = aggregation.link.fold second := by
  let := functions.scalar
  cases aggregation with
  | maximum =>
      refine fold_maximum_congr functions nonneg
        (fun degree member => nonneg degree (permuted.mem_iff.2 member)) fun bound _ => ?_
      simp only [permuted.mem_iff]
  | sum =>
      simp only [link, functions.fold_probabilisticSum, (permuted.map (1 - ·)).prod_eq]

end Aggregation

end Fold

/-! ## Firings -/

namespace Rule

variable {α : Type} [Scalar α]

/-- What fires: the strengths above zero, with the conclusions of their rules. -/
def fired (strength : Rule α → α) (rules : List (Rule α)) : List (α × Conclusion) :=
  (rules.map fun rule => (strength rule, rule.conclusion)).filter (0 < ·.1)

structure WellFormed (rules : List (Rule α)) : Prop where
  nonempty : rules ≠ []
  weighted : ∀ rule ∈ rules, IsDegree rule.weight

theorem WellFormed.perm {first second : List (Rule α)} (formed : WellFormed first)
    (permuted : first.Perm second) : WellFormed second where
  nonempty := by
    rintro rfl
    exact formed.nonempty permuted.eq_nil
  weighted rule member := formed.weighted rule (permuted.mem_iff.2 member)

theorem WellFormed.insert {before after : List (Rule α)} {rule : Rule α}
    (formed : WellFormed (before ++ after)) (weighted : IsDegree rule.weight) :
    WellFormed (before ++ rule :: after) where
  nonempty := List.append_ne_nil_of_right_ne_nil before (List.cons_ne_nil rule after)
  weighted other member := by
    rcases List.mem_cons.1 (List.perm_middle.mem_iff.1 member) with rfl | earlier
    · exact weighted
    · exact formed.weighted other earlier

variable {strength : Rule α → α}

theorem mem_fired_iff {rules : List (Rule α)} {firing : α × Conclusion} :
    firing ∈ fired strength rules ↔
      ∃ rule ∈ rules, (strength rule, rule.conclusion) = firing ∧ 0 < firing.1 := by
  rw [fired, List.mem_filter, List.mem_map, decide_eq_true_iff]
  exact ⟨fun ⟨⟨rule, member, same⟩, fires⟩ => ⟨rule, member, same, fires⟩,
    fun ⟨rule, member, same, fires⟩ => ⟨⟨rule, member, same⟩, fires⟩⟩

theorem fired_insert {before after : List (Rule α)} {rule : Rule α} (idle : ¬0 < strength rule) :
    fired strength (before ++ rule :: after) = fired strength (before ++ after) := by
  simp [fired, idle]

/-- The firings on one output are those of its rules that have a strength above zero. -/
theorem filter_fired (rules : List (Rule α)) (key : Nat) :
    (fired strength rules).filter (·.2.output == key) =
      ((rules.filter (·.conclusion.output == key)).map fun rule =>
        (strength rule, rule.conclusion)).filter (0 < ·.1) := by
  rw [fired, List.filter_filter, List.filter_map, List.filter_map, List.filter_filter]
  simp only [Function.comp_def, Bool.and_comm]

theorem isDegree_of_mem_fired {rules : List (Rule α)}
    (inside : ∀ rule ∈ rules, IsDegree (strength rule)) :
    ∀ firing ∈ fired strength rules, IsDegree firing.1 := by
  intro firing fires
  obtain ⟨rule, member, rfl⟩ := List.mem_map.1 (List.mem_of_mem_filter fires)
  exact inside rule member

/-- Answers for lists of rules depend on what fires, counted with multiplicity. -/
structure DecidedByFired (strength : Rule α → α)
    (answer : List (Rule α) → Except (Error α) (KeyMap α)) : Prop where
  succeeds : ∀ {rules}, WellFormed rules → ∃ results, answer rules = .ok results
  of_perm_fired : ∀ {first second}, WellFormed first → WellFormed second →
    (fired strength first).Perm (fired strength second) → answer first = answer second
  of_perm : ∀ {first second}, WellFormed first → first.Perm second → answer first = answer second
  of_idle : ∀ {before after rule}, WellFormed (before ++ after) → IsDegree rule.weight →
    ¬0 < strength rule → answer (before ++ rule :: after) = answer (before ++ after)
  idle_of_weightless : ∀ {rule : Rule α}, rule.weight = 0 → ¬0 < strength rule

/-- Answers for lists of rules depend on what fires, however often. -/
structure DecidedBySet (strength : Rule α → α)
    (answer : List (Rule α) → Except (Error α) (KeyMap α)) : Prop where
  of_same_fired : ∀ {first second}, WellFormed first → WellFormed second →
    (∀ firing, firing ∈ fired strength first ↔ firing ∈ fired strength second) →
      answer first = answer second
  of_duplicate : ∀ {before after rule}, WellFormed (before ++ after) → rule ∈ before ++ after →
    answer (before ++ rule :: after) = answer (before ++ after)

variable {answer : List (Rule α) → Except (Error α) (KeyMap α)}

/-- Permutations and rules that do not fire need no argument of their own. -/
theorem DecidedByFired.of
    (succeeds : ∀ {rules}, WellFormed rules → ∃ results, answer rules = .ok results)
    (decides : ∀ {first second}, WellFormed first → WellFormed second →
      (fired strength first).Perm (fired strength second) → answer first = answer second)
    (idle_of_weightless : ∀ {rule : Rule α}, rule.weight = 0 → ¬0 < strength rule) :
    DecidedByFired strength answer where
  succeeds := succeeds
  of_perm_fired := decides
  of_perm formed permuted :=
    decides formed (formed.perm permuted) ((permuted.map _).filter _)
  of_idle formed weighted idle :=
    decides (formed.insert weighted) formed (List.Perm.of_eq (fired_insert idle))
  idle_of_weightless := idle_of_weightless

theorem DecidedBySet.of
    (decides : ∀ {first second}, WellFormed first → WellFormed second →
      (∀ firing, firing ∈ fired strength first ↔ firing ∈ fired strength second) →
        answer first = answer second) : DecidedBySet strength answer where
  of_same_fired := decides
  of_duplicate {before after rule} formed member := by
    refine decides (formed.insert (formed.weighted rule member)) formed fun firing => ?_
    have same (other : Rule α) : other ∈ before ++ rule :: after ↔ other ∈ before ++ after := by
      rw [List.perm_middle.mem_iff, List.mem_cons]
      exact ⟨fun either => either.elim (fun here => here ▸ member) id, .inr⟩
    simp only [mem_fired_iff, same]

end Rule

namespace RuleBase

variable {α ω β : Type} [Scalar α]

def withRules (self : RuleBase α ω) (rules : List (Rule α)) : RuleBase α ω :=
  { self with rules := rules }

theorem inferWith_withRules (self : RuleBase α ω) {rules : List (Rule α)} (some_rule : rules ≠ [])
    (values : KeyMap α) (finish : Memberships α → β) :
    (self.withRules rules).inferWith values finish =
      (self.validate values).map fun _ => finish (self.memberships values) := by
  have ready : (self.withRules rules).checkRules = .ok () := checkRules_eq_ok some_rule
  have fuzzify_eq : (self.withRules rules).fuzzify values =
      (self.validate values).map fun _ => self.memberships values := rfl
  rw [inferWith, ready, fuzzify_eq]
  cases self.validate values <;> rfl

/-- The checks are the same for all rules, so the answers are if the computations are. -/
theorem inferWith_withRules_congr (self : RuleBase α ω) {first second : List (Rule α)}
    (first_formed : Rule.WellFormed first) (second_formed : Rule.WellFormed second)
    {values : KeyMap α} {firstFinish secondFinish : Memberships α → β}
    (same : firstFinish (self.memberships values) = secondFinish (self.memberships values)) :
    (self.withRules first).inferWith values firstFinish =
      (self.withRules second).inferWith values secondFinish := by
  rw [self.inferWith_withRules first_formed.nonempty,
    self.inferWith_withRules second_formed.nonempty, same]

end RuleBase

def Mamdani.withRules {α : Type} [Scalar α] (self : Mamdani α) (rules : List (Rule α)) :
    Mamdani α :=
  { self with toRuleBase := self.toRuleBase.withRules rules }

def Sugeno.withRules {α : Type} [Scalar α] (self : Sugeno α) (rules : List (Rule α)) : Sugeno α :=
  ⟨self.toRuleBase.withRules rules⟩

variable {K : Type} [Field K] [LinearOrder K] [IsStrictOrderedRing K] (functions : Elementary K)

omit [IsStrictOrderedRing K] in
theorem RuleBase.idle_of_weightless {ω : Type} :
    letI := functions.scalar
    ∀ (self : RuleBase K ω) (memberships : Memberships K) {rule : Rule K}, rule.weight = 0 →
      ¬0 < self.strength memberships rule := by
  let := functions.scalar
  intro self memberships rule weightless
  rw [strength, weightless, mul_zero]
  exact lt_irrefl 0

omit [IsStrictOrderedRing K] in
/-- What fires decides the answers if it decides what is computed from accepted values. -/
theorem RuleBase.decidedByFired {ω : Type} :
    letI := functions.scalar
    ∀ (self : RuleBase K ω) {values : KeyMap K} {finish : List (Rule K) → Memberships K → KeyMap K},
      self.validate values = .ok () →
      (∀ {first second}, Rule.WellFormed first → Rule.WellFormed second →
        (Rule.fired (self.strength (self.memberships values)) first).Perm
          (Rule.fired (self.strength (self.memberships values)) second) →
            finish first (self.memberships values) = finish second (self.memberships values)) →
      Rule.DecidedByFired (self.strength (self.memberships values))
        fun rules => (self.withRules rules).inferWith values (finish rules) := by
  let := functions.scalar
  intro self values finish accepted decides
  refine Rule.DecidedByFired.of (fun {rules} formed => ?_)
    (fun first_formed second_formed permuted =>
      self.inferWith_withRules_congr first_formed second_formed
        (decides first_formed second_formed permuted))
    (self.idle_of_weightless functions _)
  rw [self.inferWith_withRules formed.nonempty, accepted]
  exact ⟨_, rfl⟩

/-! ## Mamdani controllers -/

namespace Mamdani

/-- What a firing adds to the set of its output at one abscissa. -/
def firedAt {α : Type} [Scalar α] (self : Mamdani α) (x : α) (firing : α × Conclusion) : α :=
  self.implication.link.apply firing.1 ((self.concludedSet firing.2).degree x)

theorem firedAt_nonneg :
    letI := functions.scalar
    ∀ (self : Mamdani K) (x : K) (firing : K × Conclusion), IsDegree firing.1 →
      0 ≤ self.firedAt x firing := by
  let := functions.scalar
  intro self x firing inside
  exact (functions.isDegree_link _ inside (functions.isDegree_degree _ x)).1

theorem firedAt_eq_zero :
    letI := functions.scalar
    ∀ (self : Mamdani K) (x : K) (firing : K × Conclusion), firing.1 = 0 →
      self.firedAt x firing = 0 := by
  let := functions.scalar
  intro self x firing idle
  have nonneg := (functions.isDegree_degree (self.concludedSet firing.2) x).1
  rw [firedAt, idle]
  cases self.implication with
  | minimum => exact (functions.smaller_eq_min _ _).trans (min_eq_left nonneg)
  | product => exact zero_mul _

/-- Rules of no strength do not show in the aggregated degrees. -/
theorem aggregatedAt_withRules :
    letI := functions.scalar
    ∀ (self : Mamdani K) {rules : List (Rule K)} {memberships : Memberships K},
      (∀ rule ∈ rules, IsDegree (self.strength memberships rule)) → ∀ (key : Nat) (x : K),
        (self.withRules rules).aggregatedAt memberships key x = self.aggregation.link.fold
          (((Rule.fired (self.strength memberships) rules).filter (·.2.output == key)).map
            (self.firedAt x)) := by
  let := functions.scalar
  intro self rules memberships inside key x
  have degree_of_mem : ∀ firing ∈ (rules.filter (·.conclusion.output == key)).map
      (fun rule => (self.strength memberships rule, rule.conclusion)), IsDegree firing.1 :=
    List.forall_mem_map.2 fun rule member => inside rule (List.mem_of_mem_filter member)
  rw [Rule.filter_fired, self.aggregation.fold_map_filter functions
    (fun firing member => firedAt_nonneg functions self x firing (degree_of_mem firing member))
    fun firing member idle => ?_, aggregatedAt, List.map_map]
  · rfl
  · have not_above := not_lt.1 (of_decide_eq_false idle)
    exact firedAt_eq_zero functions self x firing
      (le_antisymm not_above (degree_of_mem firing member).1)

/-- Rules that lead to the same aggregated degrees lead to the same crisp values. -/
theorem crispOn_withRules_congr (bounded : functions.Bounded) :
    letI := functions.scalar
    ∀ (self : Mamdani K) {first second : List (Rule K)}, Rule.WellFormed first →
      Rule.WellFormed second → ∀ values : KeyMap K,
      (∀ key x, (self.withRules first).aggregatedAt (self.memberships values) key x =
        (self.withRules second).aggregatedAt (self.memberships values) key x) →
      (self.withRules first).crispOn (self.memberships values) =
        (self.withRules second).crispOn (self.memberships values) := by
  let := functions.scalar
  have lawful := bounded.lawfulDegrees
  intro self first second first_formed second_formed values same
  have pointwise_eq {rules : List (Rule K)} (formed : Rule.WellFormed rules) :
      (self.withRules rules).crispOn (self.memberships values) =
        (self.withRules rules).pointwiseValue (self.memberships values) := by
    have inside : ∀ rule ∈ (self.withRules rules).rules,
        IsDegree ((self.withRules rules).strength (self.memberships values) rule) :=
      self.isDegree_strengths values formed.weighted
    exact funext fun key => funext (crispOn_eq inside key)
  -- the aggregated sets are not equal, as each is built from its own rules; their samples are
  rw [pointwise_eq first_formed, pointwise_eq second_formed]
  funext key output
  rw [pointwiseValue, pointwiseValue]
  simp only [same]
  rfl

/-- The answer is computed from the crisp values of the outputs. -/
theorem calculate_withRules {α : Type} [Scalar α] (self : Mamdani α) (values : KeyMap α) :
    (fun rules => (self.withRules rules).calculate values) = fun rules =>
      (self.toRuleBase.withRules rules).inferWith values fun memberships =>
        KeyMap.ofPositions (self.outputs.mapIdx ((self.withRules rules).crispOn memberships)) :=
  funext fun rules => (self.withRules rules).calculate_eq_inferWith values

theorem decidedByFired (bounded : functions.Bounded) :
    letI := functions.scalar
    ∀ (self : Mamdani K) {values : KeyMap K}, self.validate values = .ok () →
      Rule.DecidedByFired (self.strength (self.memberships values))
        fun rules => (self.withRules rules).calculate values := by
  let := functions.scalar
  have lawful := bounded.lawfulDegrees
  intro self values accepted
  rw [calculate_withRules]
  refine self.toRuleBase.decidedByFired functions accepted
    fun {first second} first_formed second_formed permuted => ?_
  have first_degrees := self.isDegree_strengths values first_formed.weighted
  have second_degrees := self.isDegree_strengths values second_formed.weighted
  refine congrArg (fun value => KeyMap.ofPositions (self.outputs.mapIdx value))
    (crispOn_withRules_congr functions bounded self first_formed second_formed values
      fun key x => ?_)
  rw [aggregatedAt_withRules functions self first_degrees,
    aggregatedAt_withRules functions self second_degrees]
  refine self.aggregation.fold_perm functions (List.forall_mem_map.2 fun firing fires => ?_)
    ((permuted.filter _).map _)
  exact firedAt_nonneg functions self x firing
    (Rule.isDegree_of_mem_fired first_degrees firing (List.mem_of_mem_filter fires))

theorem decidedBySet (bounded : functions.Bounded) :
    letI := functions.scalar
    ∀ (self : Mamdani K), self.aggregation = .maximum → ∀ values : KeyMap K,
      Rule.DecidedBySet (self.strength (self.memberships values))
        fun rules => (self.withRules rules).calculate values := by
  let := functions.scalar
  have lawful := bounded.lawfulDegrees
  intro self by_maximum values
  rw [calculate_withRules]
  refine Rule.DecidedBySet.of fun {first second} first_formed second_formed same => ?_
  have inside {rules : List (Rule K)} (formed : Rule.WellFormed rules) :=
    self.isDegree_strengths values formed.weighted
  have nonneg {rules : List (Rule K)} (formed : Rule.WellFormed rules) (key : Nat) (x : K) :
      ∀ degree ∈ ((Rule.fired (self.strength (self.memberships values)) rules).filter
        (·.2.output == key)).map (self.firedAt x), 0 ≤ degree :=
    List.forall_mem_map.2 fun firing fires => firedAt_nonneg functions self x firing
      (Rule.isDegree_of_mem_fired (inside formed) firing (List.mem_of_mem_filter fires))
  refine self.toRuleBase.inferWith_withRules_congr first_formed second_formed
    (congrArg (fun value => KeyMap.ofPositions (self.outputs.mapIdx value))
      (crispOn_withRules_congr functions bounded self first_formed second_formed values
        fun key x => ?_))
  rw [aggregatedAt_withRules functions self (inside first_formed),
    aggregatedAt_withRules functions self (inside second_formed), by_maximum]
  refine fold_maximum_congr functions (nonneg first_formed key x) (nonneg second_formed key x)
    fun bound _ => ?_
  simp only [List.forall_mem_map, List.mem_filter, same]

end Mamdani

/-! ## Sugeno controllers -/

namespace Sugeno

omit [IsStrictOrderedRing K] in
/-- Rules of no strength do not show in the mean. -/
theorem meanOn_withRules :
    letI := functions.scalar
    ∀ (self : Sugeno K) {rules : List (Rule K)} {memberships : Memberships K},
      (∀ rule ∈ rules, IsDegree (self.strength memberships rule)) →
        ∀ (values : KeyMap K) (key : Nat), (self.withRules rules).meanOn memberships values key =
          weightedMean (((Rule.fired (self.strength memberships) rules).filter
            (·.2.output == key)).map fun firing =>
              (concludedValue (self.functionValues values) firing.2, firing.1)) := by
  let := functions.scalar
  intro self rules memberships inside values key
  let onKey := (rules.filter (·.conclusion.output == key)).map fun rule =>
    (self.strength memberships rule, rule.conclusion)
  let value := fun firing : K × Conclusion =>
    concludedValue (self.functionValues values) firing.2
  have idle : ∀ firing ∈ onKey, decide (0 < firing.1) = false → firing.1 = 0 :=
    List.forall_mem_map.2 fun rule member not_above =>
      le_antisymm (not_lt.1 (of_decide_eq_false not_above))
        (inside rule (List.mem_of_mem_filter member)).1
  have weights_eq : ((onKey.filter (0 < ·.1)).map (·.1)).sum = (onKey.map (·.1)).sum :=
    sum_map_filter idle
  have products_eq : ((onKey.filter (0 < ·.1)).map fun firing => value firing * firing.1).sum =
      (onKey.map fun firing => value firing * firing.1).sum :=
    sum_map_filter fun firing member not_above => by rw [idle firing member not_above, mul_zero]
  have mean_eq : (self.withRules rules).meanOn memberships values key =
      weightedMean (onKey.map fun firing => (value firing, firing.1)) := by
    rw [meanOn, List.map_map]
    rfl
  rw [mean_eq, Rule.filter_fired, weightedMean_eq, weightedMean_eq functions _ (·.1) value,
    weights_eq, products_eq]

omit [IsStrictOrderedRing K] in
theorem weightedMean_perm {entries others : List (K × K)} (permuted : entries.Perm others) :
    letI := functions.scalar
    weightedMean entries = weightedMean others := by
  let := functions.scalar
  simp only [weightedMean, functions.total_eq_sum, (permuted.map _).sum_eq]

theorem decidedByFired (bounded : functions.Bounded) :
    letI := functions.scalar
    ∀ (self : Sugeno K) {values : KeyMap K}, self.validate values = .ok () →
      Rule.DecidedByFired (self.strength (self.memberships values))
        fun rules => (self.withRules rules).calculate values := by
  let := functions.scalar
  have lawful := bounded.lawfulDegrees
  intro self values accepted
  have calculate_eq : (fun rules => (self.withRules rules).calculate values) = fun rules =>
      (self.toRuleBase.withRules rules).inferWith values fun memberships =>
        KeyMap.ofPositions
          (self.outputs.mapIdx fun key _ => (self.withRules rules).meanOn memberships values key) :=
    funext fun rules => (self.withRules rules).calculate_eq_inferWith values
  rw [calculate_eq]
  refine self.toRuleBase.decidedByFired functions accepted
    fun {first second} first_formed second_formed permuted => ?_
  have mean_eq : (self.withRules first).meanOn (self.memberships values) values =
      (self.withRules second).meanOn (self.memberships values) values := by
    funext key
    rw [meanOn_withRules functions self (self.isDegree_strengths values first_formed.weighted),
      meanOn_withRules functions self (self.isDegree_strengths values second_formed.weighted)]
    exact weightedMean_perm functions ((permuted.filter _).map _)
  rw [mean_eq]

end Sugeno

/--
In exact arithmetic the answer to accepted values is decided by what fires, and by nothing
else about the rules.  Their order does not matter, nor do rules that do not fire, and with
aggregation by the maximum a rule may as well stand there twice.
-/
theorem calculate_decided_by_fired (bounded : functions.Bounded) :
    letI := functions.scalar
    ∀ values : KeyMap K,
      (∀ self : Mamdani K, self.validate values = .ok () →
        Rule.DecidedByFired (self.strength (self.memberships values))
          (fun rules => (self.withRules rules).calculate values) ∧
        (self.aggregation = .maximum →
          Rule.DecidedBySet (self.strength (self.memberships values))
            fun rules => (self.withRules rules).calculate values)) ∧
      (∀ self : Sugeno K, self.validate values = .ok () →
        Rule.DecidedByFired (self.strength (self.memberships values))
          fun rules => (self.withRules rules).calculate values) := by
  let := functions.scalar
  refine fun values => ⟨fun self accepted => ⟨?_, fun by_maximum => ?_⟩, fun self accepted => ?_⟩
  · exact Mamdani.decidedByFired functions bounded self accepted
  · exact Mamdani.decidedBySet functions bounded self by_maximum values
  · exact Sugeno.decidedByFired functions bounded self accepted

def tipRule (condition : Condition) (value : Nat) (weight : ℚ) : Rule ℚ :=
  ⟨⟨condition, ⟨0, value, false⟩⟩, weight⟩

/-- Three rules, of which the last one has no weight. -/
def tipRules : List (Rule ℚ) :=
  [tipRule (.leaf ⟨0, 0, false, none⟩) 1 1, tipRule (.leaf ⟨0, 0, true, none⟩) 0 (1 / 2),
    tipRule (.leaf ⟨0, 0, false, none⟩) 0 0]

/-- The rules that have a weight, in other words and in another order. -/
def rewordedTipRules : List (Rule ℚ) :=
  [tipRule (.leaf ⟨0, 0, true, none⟩) 0 (1 / 2),
    tipRule (.group .or true [.leaf ⟨0, 0, true, none⟩, .leaf ⟨0, 0, false, some .very⟩]) 1 1]

def greatestTip : Mamdani ℚ :=
  { tipBesideWine with aggregation := .maximum }

theorem reworded_tips_agree :
    (∃ results, (tipBesideWine.withRules tipRules).calculate (.ofList [(0, 4)]) = .ok results ∧
      (tipBesideWine.withRules rewordedTipRules).calculate (.ofList [(0, 4)]) = .ok results) ∧
    (greatestTip.withRules (tipRules ++ rewordedTipRules)).calculate (.ofList [(0, 4)]) =
      (greatestTip.withRules tipRules).calculate (.ofList [(0, 4)]) ∧
    (meanTip.withRules tipRules).calculate (.ofList [(0, 4)]) =
      (meanTip.withRules rewordedTipRules).calculate (.ofList [(0, 4)]) := by
  have formed : Rule.WellFormed tipRules := ⟨List.cons_ne_nil _ _, by decide +kernel⟩
  have reworded_formed : Rule.WellFormed rewordedTipRules :=
    ⟨List.cons_ne_nil _ _, by decide +kernel⟩
  have both_formed : Rule.WellFormed (tipRules ++ rewordedTipRules) :=
    ⟨List.cons_ne_nil _ _, by decide +kernel⟩
  have tip_accepted : tipBesideWine.validate (.ofList [(0, 4)]) = .ok () :=
    Outcome.eq_ok_of_isOk (by decide +kernel)
  have mean_accepted : meanTip.validate (.ofList [(0, 4)]) = .ok () :=
    Outcome.eq_ok_of_isOk (by decide +kernel)
  obtain ⟨by_mamdani, by_sugeno⟩ :=
    calculate_decided_by_fired Elementary.rational Elementary.rational_bounded (.ofList [(0, 4)])
  have tip_decided := (by_mamdani tipBesideWine tip_accepted).1
  have greatest_decided := (by_mamdani greatestTip tip_accepted).2 rfl
  obtain ⟨results, calculated⟩ := tip_decided.succeeds formed
  have same := tip_decided.of_perm_fired formed reworded_formed (by decide +kernel)
  refine ⟨⟨results, calculated, same.symm.trans calculated⟩, ?_, ?_⟩
  · refine greatest_decided.of_same_fired both_formed formed fun firing => ?_
    have reworded_sub : Rule.fired (greatestTip.strength (greatestTip.memberships
        (.ofList [(0, 4)]))) (tipRules ++ rewordedTipRules) ⊆
          Rule.fired (greatestTip.strength (greatestTip.memberships (.ofList [(0, 4)])))
            tipRules := by
      decide +kernel
    refine ⟨fun fires => reworded_sub fires, fun fires => ?_⟩
    obtain ⟨rule, member, spelled⟩ := Rule.mem_fired_iff.1 fires
    exact Rule.mem_fired_iff.2 ⟨rule, List.mem_append_left _ member, spelled⟩
  · exact (by_sugeno meanTip mean_accepted).of_perm_fired formed reworded_formed
      (by decide +kernel)

end FuzzyControl
