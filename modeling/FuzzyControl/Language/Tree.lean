import FuzzyControl.Language.Premise

/-!
# Trees of premises

The items of a premise are built into a condition by descending over ranges of
indices.  Brackets around a whole range leave no trace, and all connectives of one
range have to agree.  The table of bracket partners says where the range inside an
opening bracket ends.
-/

namespace FuzzyControl

/-- How many brackets of a premise may be open at once. -/
def maxNesting : Nat :=
  64

structure Premise where
  items : List PlacedItem
  partners : List (Nat × Nat)
  /-- The position of the word after the premise. -/
  stop : Nat
deriving DecidableEq, Repr

namespace Premise

def ofItems (items : List PlacedItem) (stop : Nat) : Except LanguageError Premise := do
  let partners ← Bracket.pairs (some maxNesting) (items.map (·.bracketEntry))
  .ok ⟨items, partners, stop⟩

/-- The index of the bracket that closes the one at `index`. -/
def partner? (premise : Premise) (index : Nat) : Option Nat :=
  premise.partners.lookup index

/-- The position of an item, or of the word after the premise. -/
def positionOf (premise : Premise) (index : Nat) : Nat :=
  match premise.items[index]? with
  | some placed => placed.position
  | none => premise.stop

/-- Leaves out the brackets around a whole range. -/
def strip (premise : Premise) (start stop : Nat) : Nat × Nat :=
  if start < stop ∧ premise.partner? start = some (stop - 1) then
    premise.strip (start + 1) (stop - 1)
  else (start, stop)
termination_by stop - start

def loneLeaf? (premise : Premise) (start stop : Nat) : Option Proposition :=
  match stop - start, premise.items[start]? with
  | 1, some ⟨_, _, .leaf proposition⟩ => some proposition
  | _, _ => none

/--
Reads one operand, a leaf or a bracketed range, that starts at `start`.  The
second component is the index after it.
-/
def operand (premise : Premise) (inner : Nat → Nat → Except LanguageError Condition)
    (stop start : Nat) : Except LanguageError (Condition × Nat) :=
  match premise.items[start]? with
  | none => .error (.defect .itemOutOfRange)
  | some placed =>
      match placed.item with
      | .leaf proposition => .ok (.leaf proposition, start + 1)
      | .bracket .opening =>
          match premise.partner? start with
          | none => .error (.defect .missingPartner)
          | some close =>
              if start < close ∧ close < stop then
                (inner (start + 1) close).map fun condition => (condition, close + 1)
              else .error (.defect .missingPartner)
      | .bracket .closing => .error (.defect .strayClosing)
      | .connective _ => .error (.unexpectedToken placed.token placed.position)

/-- Reads operands from `start` up to `stop`, joined by connectives that agree with `sofar`. -/
def chain (premise : Premise) (inner : Nat → Nat → Except LanguageError Condition)
    (stop : Nat) (sofar : Option Connective) (start : Nat) :
    Except LanguageError (List Condition × Option Connective) :=
  match premise.operand inner stop start with
  | .error cause => .error cause
  | .ok (first, next) =>
      if stop ≤ next then .ok ([first], sofar)
      else
        match premise.items[next]? with
        | none => .error (.defect .itemOutOfRange)
        | some placed =>
            match placed.item with
            | .connective own =>
                if sofar.any (· != own) then .error (.inconsistentOperator placed.position)
                else if stop ≤ next + 1 then
                  .error (.incompleteCondition (premise.positionOf (next + 1)))
                else if _advances : start < next + 1 then
                  match premise.chain inner stop (some own) (next + 1) with
                  | .error cause => .error cause
                  | .ok (rest, connective) => .ok (first :: rest, connective)
                else .error (.defect .stalled)
            | _ => .error (.unexpectedToken placed.token placed.position)
termination_by stop - start
decreasing_by omega

/-- Builds the condition of a range, descending into at most `budget` nested ranges. -/
def build (premise : Premise) : Nat → Nat → Nat → Except LanguageError Condition
  | 0, _, _ => .error (.defect .nestingBudget)
  | budget + 1, first, last =>
      let start := (premise.strip first last).1
      let stop := (premise.strip first last).2
      if stop ≤ start then .error (.incompleteCondition (premise.positionOf start))
      else
        match premise.loneLeaf? start stop with
        | some proposition => .ok (.leaf proposition)
        | none =>
            match premise.chain (premise.build budget) stop none start with
            | .error cause => .error cause
            | .ok (children, some connective) => .ok (.group connective false children)
            | .ok (_, none) => .error (.defect .missingConnective)

def condition (premise : Premise) : Except LanguageError Condition :=
  premise.build (maxNesting + 1) 0 premise.items.length

end Premise

end FuzzyControl
