import Mathlib.Tactic.Ring
import FuzzyControl.Proofs.Symmetry

/-!
# Sampling

A grid that is asked again and again gives as many abscissas as it was made for, and then nothing.
At any time it knows how many are left.  In exact arithmetic the abscissas ascend from the lower
end of the interval to the upper one by equal steps, the last step included.
-/

namespace FuzzyControl

namespace Grid

/-! ## Asking -/

section Asking

variable {α : Type} [Scalar α]

/-- Asks for the next abscissa.  A grid that has no more of them stays as it is. -/
def ask (grid : Grid α) : Option α × Grid α :=
  match grid.next? with
  | some (abscissa, later) => (some abscissa, later)
  | none => (none, grid)

def after (grid : Grid α) : Nat → Grid α
  | 0 => grid
  | calls + 1 => (grid.after calls).ask.2

/-- How many abscissas are still to come, unless more were taken than there are. -/
def remaining? (grid : Grid α) : Option Nat :=
  if grid.next ≤ grid.count then some grid.remaining else none

/-- Asking gives the values one after another, and nothing from then on. -/
inductive Drains : Grid α → List α → Prop where
  | ended {grid : Grid α} (nothing : grid.ask = (none, grid)) : Drains grid []
  | taken {grid later : Grid α} {abscissa : α} {values : List α}
      (given : grid.ask = (some abscissa, later)) (rest : Drains later values) :
      Drains grid (abscissa :: values)

variable {grid : Grid α}

theorem ask_of_lt (less : grid.next < grid.count) :
    grid.ask = (some (grid.abscissa grid.next), { grid with next := grid.next + 1 }) := by
  rw [ask, next?, if_pos less]

theorem ask_of_le (ended : grid.count ≤ grid.next) : grid.ask = (none, grid) := by
  rw [ask, next?, if_neg (Nat.not_lt_of_le ended)]

theorem length_rest (grid : Grid α) : grid.rest.length = grid.remaining := by
  rw [rest, List.length_map, List.length_range']

/-- What is still to come after a call. -/
theorem rest_ask (grid : Grid α) : grid.ask.2.rest = grid.rest.tail := by
  rw [rest_eq grid, ask]
  cases taken : grid.next? with
  | none =>
      have ended : grid.rest = [] := by rw [rest_eq, taken]
      exact ended
  | some result => rfl

theorem rest_after (grid : Grid α) (calls : Nat) :
    (grid.after calls).rest = grid.rest.drop calls := by
  induction calls with
  | zero => rfl
  | succ calls ih => rw [after, rest_ask, ih, List.tail_drop]

/-- A call takes no abscissa that is not there. -/
theorem next_le_count_ask (within : grid.next ≤ grid.count) :
    grid.ask.2.next ≤ grid.ask.2.count := by
  by_cases less : grid.next < grid.count
  · rw [ask_of_lt less]
    exact less
  · rw [ask_of_le (Nat.le_of_not_lt less)]
    exact within

theorem next_le_count_after (within : grid.next ≤ grid.count) (calls : Nat) :
    (grid.after calls).next ≤ (grid.after calls).count := by
  induction calls with
  | zero => exact within
  | succ calls ih => exact next_le_count_ask ih

theorem remaining?_eq_some (within : grid.next ≤ grid.count) :
    grid.remaining? = some grid.rest.length := by
  rw [remaining?, if_pos within, length_rest]

/-- A grid is drained of what is still to come. -/
theorem drains_rest (grid : Grid α) : grid.Drains grid.rest := by
  generalize left : grid.rest = values
  induction values generalizing grid with
  | nil =>
      have ended : grid.remaining = 0 := by rw [← length_rest, left, List.length_nil]
      exact .ended (ask_of_le (Nat.le_of_sub_eq_zero ended))
  | cons value values ih =>
      rw [rest_eq] at left
      cases taken : grid.next? with
      | none =>
          rw [taken] at left
          cases left
      | some result =>
          rw [taken] at left
          obtain ⟨rfl, later_eq⟩ := List.cons.inj left
          exact .taken (by rw [ask, taken]) (ih result.2 later_eq)

theorem getElem?_rest_spanning {low high : α} {count position : Nat} (inside : position < count) :
    (spanning low high count).rest[position]? =
      some ((spanning low high count).abscissa position) := by
  have index_eq : (List.range' (spanning low high count).next
      (spanning low high count).remaining)[position]? = some (0 + 1 * position) :=
    List.getElem?_range' inside
  rw [rest, List.getElem?_map, index_eq, Option.map_some, Nat.one_mul, Nat.zero_add]

end Asking

/-! ## Equal steps -/

section Exact

variable {K : Type} [Field K] [LinearOrder K] (functions : Elementary K) {low high : K}
  {count position : Nat}

theorem abscissa_zero :
    letI := functions.scalar
    (spanning low high count).abscissa 0 = low := by
  let := functions.scalar
  have not_last : ¬(1 < count ∧ 0 = count - 1) := by omega
  rw [abscissa_spanning, if_neg not_last, Nat.cast_zero, mul_zero, add_zero]

theorem abscissa_last (several : 1 < count) :
    letI := functions.scalar
    (spanning low high count).abscissa (count - 1) = high := by
  let := functions.scalar
  rw [abscissa_spanning, if_pos ⟨several, rfl⟩]

variable [IsStrictOrderedRing K]

/-- The step to the last abscissa, which is set apart, is like all others. -/
theorem abscissa_succ_sub (several : 1 < count) :
    letI := functions.scalar
    (spanning low high count).abscissa (position + 1) -
      (spanning low high count).abscissa position = (high - low) / ((count : K) - 1) := by
  let := functions.scalar
  rw [abscissa_of_lt functions several, abscissa_of_lt functions several, Nat.cast_succ,
    Nat.cast_pred (Nat.zero_lt_of_lt several)]
  ring

theorem abscissa_strictMono (ordered : low < high) (several : 1 < count) :
    letI := functions.scalar
    StrictMono (spanning low high count).abscissa := by
  let := functions.scalar
  refine strictMono_nat_of_lt_succ fun position => sub_pos.1 ?_
  have steps_pos : 0 < (count : K) - 1 := sub_pos.2 (Nat.one_lt_cast.2 several)
  rw [abscissa_succ_sub functions several]
  exact div_pos (sub_pos.2 ordered) steps_pos

end Exact

end Grid

/--
In exact arithmetic a grid gives as many abscissas as it was made for and then nothing: none, or
the lower end alone, or equally spaced ones that ascend from the lower end to the upper one.  After
any number of calls the grid has taken no more than there are, and as many remain as it says.
-/
theorem grids_are_equally_spaced {K : Type} [Field K] [LinearOrder K] [IsStrictOrderedRing K]
    (functions : Elementary K) (low high : K) (count : Nat) :
    letI := functions.scalar
    ∃ values, (Grid.spanning low high count).Drains values ∧ values.length = count ∧
      (count = 0 → values = []) ∧ (count = 1 → values = [low]) ∧
      (low < high → 2 ≤ count →
        values.Pairwise (· < ·) ∧ values.head? = some low ∧ values.getLast? = some high ∧
        (∀ value ∈ values, low ≤ value ∧ value ≤ high) ∧
        ∀ position first second, values[position]? = some first →
          values[position + 1]? = some second →
            second - first = (high - low) / ((count : K) - 1)) ∧
      ∀ calls, ((Grid.spanning low high count).after calls).Drains (values.drop calls) ∧
        ((Grid.spanning low high count).after calls).remaining? =
          some (values.drop calls).length := by
  let := functions.scalar
  have length_eq : (Grid.spanning low high count).rest.length = count := Grid.length_rest _
  refine ⟨_, Grid.drains_rest _, length_eq, fun none_eq => ?_, fun one_eq => ?_,
    fun ordered several => ⟨?_, ?_, ?_, ?_, ?_⟩, fun calls => ?_⟩
  · exact List.eq_nil_of_length_eq_zero (length_eq.trans none_eq)
  · subst one_eq
    exact congrArg (· :: []) (Grid.abscissa_zero functions)
  · have ascends := Grid.abscissa_strictMono functions ordered several
    exact List.Pairwise.map _ (fun _ _ less => ascends less) List.pairwise_lt_range'
  · rw [List.head?_eq_getElem?, Grid.getElem?_rest_spanning (Nat.zero_lt_of_lt several),
      Grid.abscissa_zero functions]
  · rw [List.getLast?_eq_getElem?, length_eq,
      Grid.getElem?_rest_spanning (Nat.sub_one_lt (Nat.ne_zero_of_lt several)),
      Grid.abscissa_last functions several]
  · exact fun value member => Grid.mem_spanning functions ordered.le member
  · intro position first second here next
    have inside : position + 1 < count :=
      length_eq ▸ (List.getElem?_eq_some_iff.1 next).1
    rw [Grid.getElem?_rest_spanning (Nat.lt_of_succ_lt inside), Option.some.injEq] at here
    rw [Grid.getElem?_rest_spanning inside, Option.some.injEq] at next
    rw [← here, ← next, Grid.abscissa_succ_sub functions several]
  · rw [← Grid.rest_after]
    exact ⟨Grid.drains_rest _,
      Grid.remaining?_eq_some (Grid.next_le_count_after (Nat.zero_le count) calls)⟩

/-- Four abscissas are three steps long; a fifth call gives nothing and takes nothing. -/
theorem tenths_are_equally_spaced :
    ∃ values, (Grid.spanning (0 : ℚ) (3 / 10) 4).Drains values ∧ values.length = 4 ∧
      values.getLast? = some (3 / 10) ∧
      (∀ position first second, values[position]? = some first →
        values[position + 1]? = some second → second - first = 1 / 10) ∧
      ((Grid.spanning (0 : ℚ) (3 / 10) 4).after 1).remaining? = some 3 ∧
      ((Grid.spanning (0 : ℚ) (3 / 10) 4).after 5).remaining? = some 0 := by
  obtain ⟨values, drains, length_eq, _, _, several, calls⟩ :=
    grids_are_equally_spaced Elementary.rational 0 (3 / 10) 4
  obtain ⟨_, _, last, _, steps⟩ := several (by norm_num) (by decide)
  refine ⟨values, drains, length_eq, last, fun position first second here next => ?_, ?_, ?_⟩
  · rw [steps position first second here next]
    norm_num
  · rw [(calls 1).2, List.length_drop, length_eq]
  · rw [(calls 5).2, List.length_drop, length_eq]

end FuzzyControl
