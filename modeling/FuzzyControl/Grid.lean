import FuzzyControl.Scalar

/-!
# Sampling grids

A grid walks over equally spaced abscissas of an interval.  Both ends belong to
it, and the last abscissa is the upper end itself and not a rounded sum.
-/

namespace FuzzyControl

/-- A walk over `count` abscissas, of which `next` have been taken. -/
structure Grid (α : Type) where
  low : α
  high : α
  step : α
  next : Nat
  count : Nat

namespace Grid

variable {α : Type} [Scalar α]

def spanning (low high : α) (count : Nat) : Grid α where
  low := low
  high := high
  step := if count ≤ 1 then 0 else (high - low) / ((count - 1 : Nat) : α)
  next := 0
  count := count

def abscissa (grid : Grid α) (position : Nat) : α :=
  if 1 < grid.count ∧ position = grid.count - 1 then grid.high
  else grid.low + grid.step * (position : α)

def remaining (grid : Grid α) : Nat :=
  grid.count - grid.next

def next? (grid : Grid α) : Option (α × Grid α) :=
  if grid.next < grid.count then
    some (grid.abscissa grid.next, { grid with next := grid.next + 1 })
  else none

def rest (grid : Grid α) : List α :=
  (List.range' grid.next grid.remaining).map grid.abscissa

/-- The abscissas to come are the next one, followed by those that come after it. -/
theorem rest_eq (grid : Grid α) :
    grid.rest = match grid.next? with
      | none => []
      | some (abscissa, later) => abscissa :: later.rest := by
  unfold rest next? remaining
  split
  · rename_i ended
    split at ended
    · cases ended
    · rename_i notLess
      rw [Nat.sub_eq_zero_of_le (Nat.le_of_not_lt notLess)]
      rfl
  · rename_i taken
    split at taken
    · rename_i less
      cases taken
      have split : grid.count - grid.next = (grid.count - (grid.next + 1)) + 1 := by omega
      rw [split, List.range'_succ, List.map_cons]
      rfl
    · cases taken

end Grid

end FuzzyControl
