import FuzzyControl.Proofs.Arithmetic
import FuzzyControl.Proofs.Calculation
import FuzzyControl.Proofs.Degree
import FuzzyControl.Scalar.Rational

/-!
# Crisp values lie in the domain

A grid does not leave its interval, and every way to reduce samples gives one of the
abscissas or a mean of them.  In exact arithmetic a Mamdani controller therefore gives each
output a value of its domain, unless no sample of its set has any membership.
-/

namespace FuzzyControl

open Scalar

/-- Each abscissa of a grid is so many steps above the lower end, or is the upper end. -/
theorem Grid.abscissa_spanning {α : Type} [Scalar α] (low high : α) (count position : Nat) :
    (Grid.spanning low high count).abscissa position =
      if 1 < count ∧ position = count - 1 then high
      else low + (if count ≤ 1 then 0 else (high - low) / ((count - 1 : Nat) : α)) *
        (position : α) :=
  rfl

/-! ## Selections -/

/-- Folding by an operation that gives one of its arguments ends in one of the values. -/
theorem foldl_mem_cons {β : Type} {prefer : β → β → β}
    (selects : ∀ first second, prefer first second = first ∨ prefer first second = second)
    (initial : β) (values : List β) : values.foldl prefer initial ∈ initial :: values := by
  induction values generalizing initial with
  | nil => exact List.mem_cons_self
  | cons first rest ih =>
      rw [List.foldl_cons]
      rcases List.mem_cons.1 (ih (prefer initial first)) with selected | later
      · rw [selected]
        rcases selects initial first with here | there
        · rw [here]
          exact List.mem_cons_self
        · rw [there]
          exact List.mem_cons_of_mem _ List.mem_cons_self
      · exact List.mem_cons_of_mem _ (List.mem_cons_of_mem _ later)

section Selection

variable {α : Type} [Scalar α]

theorem Scalar.larger_selects (first second : α) :
    larger first second = first ∨ larger first second = second := by
  unfold larger
  split
  · exact .inl rfl
  · split
    · exact .inr rfl
    · exact .inl rfl

theorem Scalar.smaller_selects (first second : α) :
    smaller first second = first ∨ smaller first second = second := by
  unfold smaller
  split
  · exact .inl rfl
  · split
    · exact .inr rfl
    · exact .inl rfl

namespace Defuzzification

theorem choose?_mem {prefer : α → α → α}
    (selects : ∀ first second, prefer first second = first ∨ prefer first second = second)
    {values : List α} {value : α} (chosen : choose? prefer values = some value) :
    value ∈ values := by
  unfold choose? at chosen
  split at chosen
  · cases chosen
  · rename_i first rest numbers
    cases chosen
    have inside := foldl_mem_cons selects first rest
    rw [← numbers] at inside
    exact List.mem_of_mem_filter inside

theorem crossing?_mem {half sofar x : α} {samples : List (α × α)}
    (crosses : crossing? half sofar samples = some x) : x ∈ samples.map (·.1) := by
  induction samples generalizing sofar with
  | nil => cases crosses
  | cons sample rest ih =>
      rw [crossing?] at crosses
      split at crosses
      · cases crosses
        exact List.mem_cons_self
      · exact List.mem_cons_of_mem _ (ih crosses)

theorem bisector_mem {samples : List (α × α)} (some_sample : samples ≠ []) (half : α) :
    (crossing? half 0 samples).getD ((samples.getLast?.map (·.1)).getD 0) ∈
      samples.map (·.1) := by
  cases crosses : crossing? half 0 samples with
  | some x => exact crossing?_mem crosses
  | none =>
      rw [List.getLast?_eq_some_getLast some_sample]
      exact List.mem_map_of_mem (List.getLast_mem some_sample)

theorem mem_map_of_mem_maxima {samples : List (α × α)} {x : α} (maximal : x ∈ maxima samples) :
    x ∈ samples.map (·.1) :=
  List.map_subset _ (List.filter_subset_self _) maximal

end Defuzzification

end Selection

/-! ## Samples -/

variable {K : Type} [Field K] [LinearOrder K]

/-- A grid does not leave its interval. -/
theorem Grid.mem_spanning [IsStrictOrderedRing K] (functions : Elementary K) {low high : K}
    (ordered : low ≤ high) {count : Nat} {x : K} :
    letI := functions.scalar
    x ∈ (Grid.spanning low high count).rest → low ≤ x ∧ x ≤ high := by
  let := functions.scalar
  intro member
  obtain ⟨position, within, rfl⟩ := List.mem_map.1 member
  have less : position < count := by
    simpa [Grid.spanning, Grid.remaining] using within
  rw [Grid.abscissa_spanning]
  by_cases last : 1 < count ∧ position = count - 1
  · rw [if_pos last]
    exact ⟨ordered, le_refl _⟩
  · rw [if_neg last]
    by_cases single : count ≤ 1
    · rw [if_pos single, zero_mul, add_zero]
      exact ⟨le_refl _, ordered⟩
    · have spaced : (0 : K) < ((count - 1 : Nat) : K) := Nat.cast_pos.2 (by omega)
      have position_le : (position : K) ≤ ((count - 1 : Nat) : K) := Nat.cast_le.2 (by omega)
      have width : 0 ≤ high - low := sub_nonneg.2 ordered
      have walked : (high - low) / ((count - 1 : Nat) : K) * position ≤ high - low := by
        rw [div_mul_eq_mul_div, div_le_iff₀ spaced]
        exact mul_le_mul_of_nonneg_left position_le width
      have forward : 0 ≤ (high - low) / ((count - 1 : Nat) : K) * position :=
        mul_nonneg (div_nonneg width spaced.le) (Nat.cast_nonneg position)
      rw [if_neg single]
      exact ⟨by linarith, by linarith⟩

namespace Defuzzification

/-- The abscissas lie in an interval, and no degree is below zero. -/
structure SampledOver (low high : K) (samples : List (K × K)) : Prop where
  inside : ∀ sample ∈ samples, low ≤ sample.1 ∧ sample.1 ≤ high
  nonneg : ∀ sample ∈ samples, 0 ≤ sample.2

theorem SampledOver.abscissa_mem {low high x : K} {samples : List (K × K)}
    (sampled : SampledOver low high samples) (member : x ∈ samples.map (·.1)) :
    low ≤ x ∧ x ≤ high := by
  obtain ⟨sample, inside, rfl⟩ := List.mem_map.1 member
  exact sampled.inside sample inside

variable [IsStrictOrderedRing K] (functions : Elementary K)

theorem degree_nonneg_of_mem_samples (set : FuzzySet K) (low high : K) :
    letI := functions.scalar
    ∀ sample ∈ samples set low high, 0 ≤ sample.2 := by
  let := functions.scalar
  exact List.forall_mem_map.2 fun x _ => (functions.isDegree_degree set x).1

theorem sampledOver_samples (set : FuzzySet K) {low high : K} (ordered : low ≤ high) :
    letI := functions.scalar
    SampledOver low high (samples set low high) := by
  let := functions.scalar
  refine ⟨fun sample member => ?_, degree_nonneg_of_mem_samples functions set low high⟩
  obtain ⟨x, on_grid, rfl⟩ := List.mem_map.1 member
  exact Grid.mem_spanning functions ordered on_grid

/-! ## Reductions -/

omit [IsStrictOrderedRing K] in
theorem mass_eq_sum (samples : List (K × K)) :
    letI := functions.scalar
    mass samples = (samples.map (·.2)).sum :=
  functions.total_eq_sum _

omit [IsStrictOrderedRing K] in
theorem reduce_of_massless (method : Defuzzification) {samples : List (K × K)} :
    letI := functions.scalar
    mass samples = 0 → method.reduce samples = 0 := by
  let := functions.scalar
  intro massless
  unfold reduce
  rw [massless, beq_self_eq_true, if_pos rfl]

omit [IsStrictOrderedRing K] in
theorem peak_le_iff {samples : List (K × K)} {bound : K} :
    letI := functions.scalar
    peak samples ≤ bound ↔ 0 ≤ bound ∧ ∀ sample ∈ samples, sample.2 ≤ bound := by
  let := functions.scalar
  rw [peak, functions.foldl_larger, foldl_max_le_iff, List.forall_mem_map]

omit [IsStrictOrderedRing K] in
/-- Every value of a field is a number, so none is passed over. -/
theorem choose?_cons (prefer : K → K → K) (first : K) (rest : List K) :
    letI := functions.scalar
    choose? prefer (first :: rest) = some (rest.foldl prefer first) := by
  let := functions.scalar
  have numbers : (first :: rest).filter isNumber = first :: rest :=
    List.filter_eq_self.2 fun x _ => beq_self_eq_true x
  rw [choose?, numbers]

omit [IsStrictOrderedRing K] in
theorem total_ones (values : List K) :
    letI := functions.scalar
    total (values.map fun _ => (1 : K)) = (values.length : K) := by
  rw [functions.total_eq_sum, List.map_const', List.sum_replicate, nsmul_one]

variable {low high : K} {samples : List (K × K)} (sampled : SampledOver low high samples)

include sampled

theorem mass_eq_zero_iff :
    letI := functions.scalar
    mass samples = 0 ↔ ∀ sample ∈ samples, sample.2 = 0 := by
  let := functions.scalar
  rw [mass_eq_sum functions]
  exact sum_weights_eq_zero_iff sampled.nonneg

/-- Where there is membership, some sample has the greatest degree. -/
theorem maxima_ne_nil :
    letI := functions.scalar
    mass samples ≠ 0 → maxima samples ≠ [] := by
  let := functions.scalar
  intro some_mass none_maximal
  have bounded : ∀ sample ∈ samples, sample.2 ≤ peak samples :=
    ((peak_le_iff functions).1 (le_refl _)).2
  have attained : ∀ sample ∈ samples, sample.2 ≠ peak samples := by
    intro sample member same
    have maximal : sample.1 ∈ maxima samples :=
      List.mem_map_of_mem (List.mem_filter.2 ⟨member, beq_iff_eq.2 same⟩)
    rw [none_maximal] at maximal
    cases maximal
  -- the fold for the peak starts at zero, and no sample takes its place
  rcases List.mem_cons.1 (foldl_mem_cons larger_selects 0 (samples.map (·.2))) with flat | found
  · refine some_mass ((mass_eq_zero_iff functions sampled).2 fun sample member => ?_)
    exact le_antisymm ((bounded sample member).trans_eq flat) (sampled.nonneg sample member)
  · obtain ⟨sample, member, same⟩ := List.mem_map.1 found
    exact attained sample member same

theorem choose?_maxima_mem {prefer : K → K → K} (default : K)
    (selects : ∀ first second, prefer first second = first ∨ prefer first second = second) :
    letI := functions.scalar
    mass samples ≠ 0 → (choose? prefer (maxima samples)).getD default ∈ samples.map (·.1) := by
  let := functions.scalar
  intro some_mass
  cases chosen : choose? prefer (maxima samples) with
  | some x => exact mem_map_of_mem_maxima (choose?_mem selects chosen)
  | none =>
      have some_maximal := maxima_ne_nil functions sampled some_mass
      cases shape : maxima samples with
      | nil => exact absurd shape some_maximal
      | cons first rest =>
          rw [shape, choose?_cons functions] at chosen
          cases chosen

theorem meanOfMaxima_mem :
    letI := functions.scalar
    mass samples ≠ 0 →
      low ≤ total (maxima samples) / total ((maxima samples).map fun _ => 1) ∧
        total (maxima samples) / total ((maxima samples).map fun _ => 1) ≤ high := by
  let := functions.scalar
  intro some_mass
  rw [total_ones functions, functions.total_eq_sum]
  exact average_mem (maxima_ne_nil functions sampled some_mass) fun x maximal =>
    sampled.abscissa_mem (mem_map_of_mem_maxima maximal)

/-- Samples with membership reduce to a value of their interval, whichever way is chosen. -/
theorem reduce_mem (method : Defuzzification) :
    letI := functions.scalar
    mass samples ≠ 0 → low ≤ method.reduce samples ∧ method.reduce samples ≤ high := by
  let := functions.scalar
  intro some_mass
  have some_sample : samples ≠ [] := by
    intro none_left
    rw [none_left] at some_mass
    exact some_mass rfl
  unfold reduce
  rw [beq_false_of_ne some_mass, if_neg Bool.false_ne_true]
  cases method with
  | centroid =>
      simp only [mass, functions.total_eq_sum] at some_mass ⊢
      exact mean_mem sampled.nonneg some_mass fun sample member _ => sampled.inside sample member
  | bisector => exact sampled.abscissa_mem (bisector_mem some_sample _)
  | meanOfMaxima => exact meanOfMaxima_mem functions sampled some_mass
  | largestOfMaxima =>
      exact sampled.abscissa_mem (choose?_maxima_mem functions sampled _ larger_selects some_mass)
  | smallestOfMaxima =>
      exact sampled.abscissa_mem (choose?_maxima_mem functions sampled _ smaller_selects some_mass)

omit sampled in
/-- The crisp value of a set lies in the interval, or no sample has any membership. -/
theorem crisp_mem (method : Defuzzification) (set : FuzzySet K) (ordered : low ≤ high) :
    letI := functions.scalar
    (∀ x ∈ (Grid.spanning low high sampleCount).rest, set.degree x = 0) ∧
        method.crisp set low high = 0 ∨
      (∃ x ∈ (Grid.spanning low high sampleCount).rest, 0 < set.degree x) ∧
        low ≤ method.crisp set low high ∧ method.crisp set low high ≤ high := by
  let := functions.scalar
  have sampled := sampledOver_samples functions set ordered
  have massless_iff := mass_eq_zero_iff functions sampled
  rw [samples, List.forall_mem_map] at massless_iff
  by_cases massless : mass (samples set low high) = 0
  · exact .inl ⟨massless_iff.1 massless, reduce_of_massless functions method massless⟩
  · refine .inr ⟨?_, reduce_mem functions sampled method massless⟩
    by_contra none_belongs
    refine massless (massless_iff.2 fun x on_grid => ?_)
    have flat : set.degree x ≤ 0 := not_lt.1 fun belongs => none_belongs ⟨x, on_grid, belongs⟩
    exact le_antisymm flat (functions.isDegree_degree set x).1

end Defuzzification

/--
In exact arithmetic every Mamdani controller refuses to infer just when it has no rules or
the values are not accepted.  Else it gives one value to each declared output and to nothing
else: zero, if the aggregated set has no membership at any sample, or a value of the domain.
-/
theorem calculate_in_domain [IsStrictOrderedRing K] (functions : Elementary K) :
    letI := functions.scalar
    ∀ (self : Mamdani K) (values : KeyMap K),
      (∀ cause, self.calculate values = .error cause ↔ self.Refuses values cause) ∧
      (self.rules ≠ [] → self.validate values = .ok () →
        ∃ results, self.calculate values = .ok results ∧
          results.keys = List.range self.outputs.length ∧
          ∀ key output, self.outputs[key]? = some output →
            ∃ set value,
              (self.aggregate (self.implicate
                (self.strengths (self.memberships values)))).get? key = some set ∧
              results.get? key = some value ∧
              ((∀ x ∈ (Grid.spanning output.low output.high 101).rest, set.degree x = 0) ∧
                  value = 0 ∨
                (∃ x ∈ (Grid.spanning output.low output.high 101).rest, 0 < set.degree x) ∧
                  output.low ≤ value ∧ value ≤ output.high)) := by
  let := functions.scalar
  intro self values
  rw [self.calculate_eq_inferWith]
  refine ⟨fun cause => RuleBase.inferWith_eq_error_iff, fun some_rule accepted => ?_⟩
  refine ⟨_, RuleBase.inferWith_eq_ok some_rule accepted _,
    KeyMap.keys_ofPositions_mapIdx _ _, fun key output declared => ?_⟩
  refine ⟨_, _, ?_, KeyMap.get?_ofPositions_mapIdx declared _,
    Defuzzification.crisp_mem functions self.defuzzification _ output.low_lt_high.le⟩
  rw [Mamdani.aggregate, map_range_length]
  exact KeyMap.get?_ofPositions_mapIdx declared _

/-- A controller of the tip and the wine, whose only rules are on the tip. -/
def tipBesideWine : Mamdani ℚ where
  norms := default
  inputs := [⟨"food", 0, 10, by decide +kernel, [⟨"good", .triangular 0 10 10⟩]⟩]
  outputs := [⟨"tip", 5, 25, by decide +kernel, [⟨"low", .triangular 5 10 15⟩,
      ⟨"high", .trapezoidal 15 20 30 35⟩]⟩,
    ⟨"wine", 1, 2, by decide +kernel, [⟨"red", .constant 1⟩]⟩]
  rules := [.ofStatement ⟨.leaf ⟨0, 0, false, some .very⟩, ⟨0, 1, false⟩⟩,
    .ofStatement ⟨.leaf ⟨0, 0, true, none⟩, ⟨0, 0, false⟩⟩]
  implication := .product
  aggregation := .sum
  defuzzification := .bisector

theorem tip_in_domain :
    ∃ results value, tipBesideWine.calculate (.ofList [(0, 4)]) = .ok results ∧
      results.keys = [0, 1] ∧ results.get? 0 = some value ∧ 5 ≤ value ∧ value ≤ 25 ∧
      results.get? 1 = some 0 := by
  have accepted : tipBesideWine.validate (.ofList [(0, 4)]) = .ok () :=
    Outcome.eq_ok_of_isOk (by decide +kernel)
  obtain ⟨results, calculated, keys_eq, values⟩ :=
    (calculate_in_domain Elementary.rational tipBesideWine (.ofList [(0, 4)])).2
      (List.cons_ne_nil _ _) accepted
  obtain ⟨tipSet, tip, aggregated, found, inside⟩ := values 0 _ rfl
  obtain ⟨wineSet, wine, unruled, listed, zero_or⟩ := values 1 _ rfl
  cases aggregated
  cases unruled
  refine ⟨results, tip, calculated, keys_eq, found, ?_⟩
  have wine_zero : wine = 0 := by
    rcases zero_or with ⟨_, zero⟩ | ⟨⟨x, _, belongs⟩, _⟩
    · exact zero
    · have flat : ¬(0 : ℚ) < toDegree 0 := by decide +kernel
      exact absurd belongs flat
  have tip_inside : 5 ≤ tip ∧ tip ≤ 25 := by
    rcases inside with ⟨flat, _⟩ | ⟨_, within⟩
    · exact absurd (flat 25 (by decide +kernel)) (by decide +kernel)
    · exact within
  exact ⟨tip_inside.1, tip_inside.2, wine_zero ▸ listed⟩

end FuzzyControl
