import FuzzyControl.Proofs.Tree

/-!
# Balanced ranges

A premise whose brackets are balanced falls into ranges that are balanced as well: what stands
inside of a bracket pair, and what stands behind an operand.  Each pair lies in the range in
which its opening bracket does, and ranges inside of pairs nest less deep.
-/

namespace FuzzyControl

namespace Bracket

variable {limit depth : Nat} {shape : List (Option Bracket)}

theorem exceeded?_eq_none_iff : exceeded? (some limit) depth = none ↔ depth ≤ limit := by
  simp [exceeded?, Option.filter_eq_none_iff]

/-- Where more brackets are closed than opened, the innermost open one is closed somewhere. -/
theorem Admitted.split {open_ : Nat} (admitted : Admitted (some limit) (depth + open_ + 1) shape) :
    ∃ inner later, shape = inner ++ some .closing :: later ∧
      Admitted (some (limit - (depth + 1))) open_ inner ∧ Admitted (some limit) depth later := by
  induction shape generalizing open_ with
  | nil => exact absurd admitted (Nat.succ_ne_zero _)
  | cons entry rest ih =>
      match entry, open_ with
      | none, _ =>
          obtain ⟨inner, later, rfl, inner_admitted, later_admitted⟩ := ih admitted
          exact ⟨none :: inner, later, rfl, inner_admitted, later_admitted⟩
      | some .opening, open_ =>
          obtain ⟨within, rest_admitted⟩ := admitted
          have deeper : Admitted (some limit) (depth + (open_ + 1) + 1) rest := rest_admitted
          obtain ⟨inner, later, rfl, inner_admitted, later_admitted⟩ := ih deeper
          refine ⟨some .opening :: inner, later, rfl, ⟨?_, inner_admitted⟩, later_admitted⟩
          rw [exceeded?_eq_none_iff] at within ⊢
          omega
      | some .closing, 0 => exact ⟨[], rest, rfl, rfl, admitted⟩
      | some .closing, open_ + 1 =>
          obtain ⟨inner, later, rfl, inner_admitted, later_admitted⟩ := ih admitted
          exact ⟨some .closing :: inner, later, rfl, inner_admitted, later_admitted⟩

/-- Entries that close what they open do so in front of any others. -/
theorem Admitted.append {bound open_ : Nat} {rest : List (Option Bracket)}
    (first : Admitted (some limit) open_ shape) (fits : depth + limit ≤ bound)
    (second : Admitted (some bound) depth rest) :
    Admitted (some bound) (depth + open_) (shape ++ rest) := by
  induction shape generalizing open_ with
  | nil =>
      cases first
      exact second
  | cons entry more ih =>
      match entry, open_ with
      | none, _ => exact ih first
      | some .opening, open_ =>
          obtain ⟨within, more_admitted⟩ := first
          refine ⟨?_, ih more_admitted⟩
          rw [exceeded?_eq_none_iff] at within ⊢
          omega
      | some .closing, 0 => exact first.elim
      | some .closing, open_ + 1 => exact ih first

theorem Admitted.closing?_append {open_ : Nat} (admitted : Admitted (some limit) open_ shape)
    (depth : Nat) (rest : List (Option Bracket)) :
    closing? (depth + open_) (shape ++ rest) = (closing? depth rest).map (· + shape.length) := by
  induction shape generalizing open_ with
  | nil =>
      cases admitted
      exact Option.map_id'.symm
  | cons entry more ih =>
      match entry, open_ with
      | none, _ =>
          rw [List.cons_append, closing?, ih admitted, map_add_map_add, List.length_cons,
            Nat.add_comm]
      | some .opening, open_ =>
          have later := ih admitted.2
          rw [List.cons_append, closing?, Nat.add_assoc, later, map_add_map_add, List.length_cons,
            Nat.add_comm]
      | some .closing, 0 => exact admitted.elim
      | some .closing, open_ + 1 =>
          rw [List.cons_append, ← Nat.add_assoc, closing?, ih admitted, map_add_map_add,
            List.length_cons, Nat.add_comm]

end Bracket

/-- Items whose brackets are balanced close the brackets that they open. -/
theorem Tree.closed_of_admitted {limit : Nat} {items : List Item}
    (balanced : Bracket.Admitted (some limit) 0 (bracketShape items)) :
    Tree.Closed limit items where
  closing depth rest := by
    have closing := balanced.closing?_append depth rest
    rwa [bracketShape, List.length_map] at closing
  admitted fits rest := balanced.append fits rest

namespace Premise

variable {premise : Premise} {limit start stop : Nat} {items rest : List Item}

/-- The items between two indices; their brackets are balanced and nest at most `limit` deep. -/
structure Range (premise : Premise) (limit start stop : Nat) (items : List Item) : Prop where
  located : ∃ before after, premise.contents = before ++ (items ++ after) ∧ before.length = start
  length_eq : start + items.length = stop
  balanced : Bracket.Admitted (some limit) 0 (bracketShape items)

/-- All items are a range, once their brackets have been matched. -/
theorem range_of_ofItems {placed : List PlacedItem} {stop : Nat}
    (matched : ofItems placed stop = .ok premise) :
    premise.Range maxNesting 0 premise.items.length premise.contents := by
  have balanced := (ofItems_isOk_iff placed stop).1 ⟨premise, matched⟩
  obtain ⟨partners, _, rfl⟩ := ofItems_eq_ok_iff.1 matched
  exact ⟨⟨[], [], (List.append_nil _).symm, rfl⟩, by rw [Nat.zero_add, contents, List.length_map],
    balanced⟩

namespace Range

theorem mono (range : premise.Range limit start stop items) {larger : Nat} (le : limit ≤ larger) :
    premise.Range larger start stop items := by
  refine ⟨range.located, range.length_eq, ?_⟩
  have ended : Bracket.Admitted (some larger) 0 [] := rfl
  have balanced := range.balanced.append (by omega : 0 + limit ≤ larger) ended
  rwa [List.append_nil] at balanced

/-- A range between two different indices has a first item. -/
theorem cons (range : premise.Range limit start stop items) (less : start < stop) :
    ∃ item rest, items = item :: rest := by
  cases items with
  | nil => exact absurd range.length_eq (Nat.ne_of_lt less)
  | cons item rest => exact ⟨item, rest, rfl⟩

theorem head {item : Item} (range : premise.Range limit start stop (item :: rest)) :
    start < stop ∧ ∃ placed, premise.items[start]? = some placed ∧ placed.item = item := by
  obtain ⟨⟨before, after, here, rfl⟩, length_eq, _⟩ := range
  obtain ⟨position, token, found⟩ := getElem?_items here
  rw [List.length_cons] at length_eq
  exact ⟨by omega, _, found, rfl⟩

/-- No range starts with a closing bracket. -/
theorem not_closing : ¬premise.Range limit start stop (.bracket .closing :: rest) := fun range =>
  range.balanced

/-- Behind an item that is no bracket the range goes on. -/
theorem tail {item : Item} (plain : item.bracket? = none)
    (range : premise.Range limit start stop (item :: rest)) :
    premise.Range limit (start + 1) stop rest := by
  obtain ⟨⟨before, after, here, rfl⟩, length_eq, balanced⟩ := range
  refine ⟨⟨before ++ [item], after, ?_, ?_⟩, ?_, ?_⟩
  · rw [here, List.append_assoc]
    rfl
  · rw [List.length_append, List.length_singleton]
  · rw [List.length_cons] at length_eq
    omega
  · rw [bracketShape, List.map_cons, plain] at balanced
    exact balanced

/-- An item that is no bracket has no partner. -/
theorem partner?_eq_none {item : Item} (matched : premise.Matched) (plain : item.bracket? = none)
    (range : premise.Range limit start stop (item :: rest)) : premise.partner? start = none := by
  obtain ⟨⟨before, after, here, rfl⟩, _, _⟩ := range
  rw [partner?_eq matched here, plain]
  rfl

/-- An opening bracket has its partner in the range; the ranges between and behind are smaller. -/
theorem bracketed (matched : premise.Matched)
    (range : premise.Range limit start stop (.bracket .opening :: rest)) :
    ∃ inner later close, premise.partner? start = some close ∧ start + 1 ≤ close ∧ close < stop ∧
      0 < limit ∧ premise.Range (limit - 1) (start + 1) close inner ∧
      premise.Range limit (close + 1) stop later := by
  obtain ⟨⟨before, after, here, rfl⟩, length_eq, within, balanced⟩ := range
  obtain ⟨inner_shape, later_shape, shape_eq, inner_balanced, later_balanced⟩ :=
    @Bracket.Admitted.split limit 0 _ 0 balanced
  obtain ⟨inner, others, rfl, rfl, others_eq⟩ := List.map_eq_append_iff.1 shape_eq
  obtain ⟨last, later, rfl, is_closing, rfl⟩ := List.map_eq_cons_iff.1 others_eq
  have last_eq : last = .bracket .closing := by
    cases last with
    | bracket own => cases is_closing; rfl
    | leaf _ | connective _ => cases is_closing
  subst last_eq
  rw [List.length_cons, List.length_append, List.length_cons] at length_eq
  have pair : premise.contents =
      before ++ (.bracket .opening :: (inner ++ [.bracket .closing]) ++ (later ++ after)) := by
    rw [here]
    simp
  have partner := partner?_bracketed matched (Tree.closed_of_admitted inner_balanced) pair
  refine ⟨inner, later, before.length + inner.length + 1, partner, by omega, by omega, ?_,
    ⟨?_, ?_, inner_balanced⟩, ⟨?_, ?_, later_balanced⟩⟩
  · rw [Bracket.exceeded?_eq_none_iff] at within
    omega
  · refine ⟨before ++ [.bracket .opening], .bracket .closing :: (later ++ after), ?_, ?_⟩
    · rw [pair]
      simp
    · rw [List.length_append, List.length_singleton]
  · omega
  · refine ⟨before ++ .bracket .opening :: (inner ++ [.bracket .closing]), after, ?_, ?_⟩
    · rw [pair]
      simp
    · rw [List.length_append, List.length_cons, List.length_append, List.length_singleton]
      omega
  · omega

end Range

end Premise

end FuzzyControl
