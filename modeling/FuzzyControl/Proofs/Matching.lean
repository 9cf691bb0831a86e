import Mathlib.Order.Bounds.Basic
import FuzzyControl.Proofs.Bracket

/-!
# The matching of brackets

The partner of an opening bracket is the first entry up to which as many brackets are closed as
opened.  Among balanced brackets partners make pairs of which any two are nested or disjoint, and
there is no other way to pair the brackets like that.
-/

namespace FuzzyControl

namespace Bracket

variable {limit : Option Nat} {depth index close distance : Nat}
  {shape rest : List (Option Bracket)}

/-! ## Counting -/

def openings (shape : List (Option Bracket)) : Nat :=
  shape.count (some .opening)

def closings (shape : List (Option Bracket)) : Nat :=
  shape.count (some .closing)

/-- Nothing is closed before it is opened, and in the end everything is closed. -/
structure Balanced (shape : List (Option Bracket)) : Prop where
  upheld : ∀ length, closings (shape.take length) ≤ openings (shape.take length)
  settled : openings shape = closings shape

/-- The entries from one index to another, which is included. -/
def segment (shape : List (Option Bracket)) (first last : Nat) : List (Option Bracket) :=
  (shape.drop first).take (last + 1 - first)

/-- As many brackets are opened as closed from one index to the other. -/
def Settles (shape : List (Option Bracket)) (first last : Nat) : Prop :=
  openings (segment shape first last) = closings (segment shape first last)

@[simp]
theorem openings_cons_none : openings (none :: rest) = openings rest := by
  simp [openings]

@[simp]
theorem openings_cons_opening : openings (some .opening :: rest) = openings rest + 1 := by
  simp [openings]

@[simp]
theorem openings_cons_closing : openings (some .closing :: rest) = openings rest := by
  simp [openings]

@[simp]
theorem closings_cons_none : closings (none :: rest) = closings rest := by
  simp [closings]

@[simp]
theorem closings_cons_opening : closings (some .opening :: rest) = closings rest := by
  simp [closings]

@[simp]
theorem closings_cons_closing : closings (some .closing :: rest) = closings rest + 1 := by
  simp [closings]

theorem Admitted.closings_take_le (admitted : Admitted limit depth shape) (length : Nat) :
    closings (shape.take length) ≤ openings (shape.take length) + depth := by
  induction shape generalizing depth length with
  | nil => simp [closings]
  | cons entry rest ih =>
      cases length with
      | zero => exact Nat.zero_le _
      | succ length =>
          rw [List.take_succ_cons]
          match entry, depth with
          | none, _ =>
              rw [closings_cons_none, openings_cons_none]
              exact ih admitted length
          | some .opening, depth =>
              have later := ih admitted.2 length
              rw [closings_cons_opening, openings_cons_opening]
              omega
          | some .closing, 0 => exact admitted.elim
          | some .closing, depth + 1 =>
              have later := ih admitted length
              rw [closings_cons_closing, openings_cons_closing]
              omega

theorem Admitted.closings_eq (admitted : Admitted limit depth shape) :
    closings shape = openings shape + depth := by
  induction shape generalizing depth with
  | nil =>
      cases admitted
      rfl
  | cons entry rest ih =>
      match entry, depth with
      | none, _ =>
          rw [closings_cons_none, openings_cons_none]
          exact ih admitted
      | some .opening, depth =>
          rw [closings_cons_opening, openings_cons_opening, ih admitted.2]
          omega
      | some .closing, 0 => exact admitted.elim
      | some .closing, depth + 1 =>
          rw [closings_cons_closing, openings_cons_closing, ih admitted, Nat.add_assoc]

theorem Admitted.balanced (admitted : Admitted limit 0 shape) : Balanced shape :=
  ⟨admitted.closings_take_le, admitted.closings_eq.symm⟩

/-- Before the bracket around the sequence is closed, no more is closed than is open. -/
theorem closings_take_le_of_closing? (found : closing? depth shape = some distance) {length : Nat}
    (le : length ≤ distance) :
    closings (shape.take length) ≤ openings (shape.take length) + depth := by
  induction shape generalizing depth distance length with
  | nil => cases found
  | cons entry rest ih =>
      cases length with
      | zero => exact Nat.zero_le _
      | succ length =>
          rw [List.take_succ_cons]
          match entry, depth with
          | none, _ =>
              obtain ⟨inner, found_inner, rfl⟩ := Option.map_eq_some_iff.1 found
              rw [closings_cons_none, openings_cons_none]
              exact ih found_inner (Nat.le_of_succ_le_succ le)
          | some .opening, depth =>
              obtain ⟨inner, found_inner, rfl⟩ := Option.map_eq_some_iff.1 found
              have later := ih found_inner (Nat.le_of_succ_le_succ le)
              rw [closings_cons_opening, openings_cons_opening]
              omega
          | some .closing, 0 =>
              cases found
              exact absurd le (Nat.not_succ_le_zero length)
          | some .closing, depth + 1 =>
              obtain ⟨inner, found_inner, rfl⟩ := Option.map_eq_some_iff.1 found
              have later := ih found_inner (Nat.le_of_succ_le_succ le)
              rw [closings_cons_closing, openings_cons_closing]
              omega

/-- With the bracket that closes the one around the sequence, one more is closed than is open. -/
theorem closings_take_of_closing? (found : closing? depth shape = some distance) :
    closings (shape.take (distance + 1)) = openings (shape.take (distance + 1)) + depth + 1 := by
  induction shape generalizing depth distance with
  | nil => cases found
  | cons entry rest ih =>
      rw [List.take_succ_cons]
      match entry, depth with
      | none, _ =>
          obtain ⟨inner, found_inner, rfl⟩ := Option.map_eq_some_iff.1 found
          rw [closings_cons_none, openings_cons_none]
          exact ih found_inner
      | some .opening, depth =>
          obtain ⟨inner, found_inner, rfl⟩ := Option.map_eq_some_iff.1 found
          rw [closings_cons_opening, openings_cons_opening, ih found_inner]
          omega
      | some .closing, 0 =>
          cases found
          rfl
      | some .closing, depth + 1 =>
          obtain ⟨inner, found_inner, rfl⟩ := Option.map_eq_some_iff.1 found
          rw [closings_cons_closing, openings_cons_closing, ih found_inner, Nat.add_assoc _ depth]

/-- A partner is the first later index up to which as many brackets are closed as opened. -/
theorem isLeast_partner? (found : partner? shape index = some close) :
    IsLeast {last | index < last ∧ Settles shape index last} close := by
  obtain ⟨opening, _, less⟩ := partner?_spec found
  have suffix : shape.drop index = some .opening :: shape.drop (index + 1) := by
    obtain ⟨inside, here⟩ := List.getElem?_eq_some_iff.1 opening
    rw [List.drop_eq_getElem_cons inside, here]
  have settles_iff {last : Nat} (later : index < last) :
      Settles shape index last ↔ closings ((shape.drop (index + 1)).take (last - index)) =
        openings ((shape.drop (index + 1)).take (last - index)) + 1 := by
    rw [Settles, segment, suffix, Nat.sub_add_comm later.le, List.take_succ_cons,
      openings_cons_opening, closings_cons_opening, eq_comm]
  rw [partner?, opening] at found
  obtain ⟨distance, found_distance, rfl⟩ := Option.map_eq_some_iff.1 found
  refine ⟨⟨less, (settles_iff less).2 ?_⟩, fun last both => ?_⟩
  · have shift : distance + (index + 1) - index = distance + 1 := by omega
    rw [shift, closings_take_of_closing? found_distance]
  · obtain ⟨later, settles⟩ := both
    by_contra earlier
    have counted := (settles_iff later).1 settles
    have le : last - index ≤ distance := by omega
    have bounded := closings_take_le_of_closing? found_distance le
    omega

/-! ## Pairs -/

theorem closing?_append (found : closing? depth shape = some distance)
    (rest : List (Option Bracket)) : closing? depth (shape ++ rest) = some distance := by
  induction shape generalizing depth distance with
  | nil => cases found
  | cons entry more ih =>
      match entry, depth with
      | none, _ | some .opening, _ | some .closing, _ + 1 =>
          obtain ⟨inner, found_inner, rfl⟩ := Option.map_eq_some_iff.1 found
          exact Option.map_eq_some_iff.2 ⟨inner, ih found_inner, rfl⟩
      | some .closing, 0 => exact found

theorem partner?_append_right (before rest : List (Option Bracket)) (index : Nat) :
    partner? (before ++ rest) (before.length + index) =
      (partner? rest index).map (· + before.length) := by
  induction before with
  | nil => simp
  | cons entry more ih =>
      rw [List.cons_append, List.length_cons, Nat.add_right_comm, partner?_cons, ih,
        map_add_map_add, Nat.add_comm 1]

theorem partner?_append_left (found : partner? shape index = some close)
    (rest : List (Option Bracket)) : partner? (shape ++ rest) index = some close := by
  obtain ⟨opening, _, _⟩ := partner?_spec found
  obtain ⟨inside, _⟩ := List.getElem?_eq_some_iff.1 opening
  rw [partner?, opening] at found
  obtain ⟨distance, found_distance, rfl⟩ := Option.map_eq_some_iff.1 found
  rw [partner?, List.getElem?_append_left inside, opening,
    List.drop_append_of_le_length (Nat.succ_le_of_lt inside)]
  exact Option.map_eq_some_iff.2 ⟨distance, closing?_append found_distance rest, rfl⟩

theorem partner?_zero : partner? (some .opening :: rest) 0 = (closing? 0 rest).map (· + 1) := by
  rw [partner?, List.getElem?_cons_zero, List.drop_succ_cons, List.drop_zero, Nat.zero_add]

/-- What is open before the sequence is closed in it. -/
theorem Admitted.exists_closing (admitted : Admitted limit depth shape) {inner : Nat}
    (less : inner < depth) : ∃ distance, closing? inner shape = some distance := by
  induction shape generalizing depth inner with
  | nil =>
      cases admitted
      exact absurd less (Nat.not_lt_zero inner)
  | cons entry rest ih =>
      match entry, depth with
      | none, _ =>
          obtain ⟨distance, found⟩ := ih admitted less
          exact ⟨distance + 1, by rw [closing?, found, Option.map_some]⟩
      | some .opening, _ =>
          obtain ⟨distance, found⟩ := ih admitted.2 (Nat.succ_lt_succ less)
          exact ⟨distance + 1, by rw [closing?, found, Option.map_some]⟩
      | some .closing, 0 => exact admitted.elim
      | some .closing, depth + 1 =>
          cases inner with
          | zero => exact ⟨0, rfl⟩
          | succ inner =>
              obtain ⟨distance, found⟩ := ih admitted (Nat.lt_of_succ_lt_succ less)
              exact ⟨distance + 1, by rw [closing?, found, Option.map_some]⟩

theorem Admitted.exists_partner (admitted : Admitted limit depth shape)
    (opening : shape[index]? = some (some .opening)) :
    ∃ close, partner? shape index = some close := by
  induction shape generalizing depth index with
  | nil => cases opening
  | cons entry rest ih =>
      have later {depth index : Nat} (admitted : Admitted limit depth rest)
          (opening : rest[index]? = some (some .opening)) :
          ∃ close, partner? (entry :: rest) (index + 1) = some close := by
        obtain ⟨close, found⟩ := ih admitted opening
        exact ⟨close + 1, by rw [partner?_cons, found, Option.map_some]⟩
      cases index with
      | zero =>
          cases opening
          obtain ⟨distance, found⟩ := admitted.2.exists_closing (Nat.succ_pos depth)
          exact ⟨distance + 1, by rw [partner?_zero, found, Option.map_some]⟩
      | succ index =>
          match entry, depth with
          | none, _ => exact later admitted opening
          | some .opening, _ => exact later admitted.2 opening
          | some .closing, 0 => exact admitted.elim
          | some .closing, _ + 1 => exact later admitted opening

/-- A closing bracket closes one of the sequence or one that is open before it. -/
theorem Admitted.exists_opening (admitted : Admitted limit depth shape)
    (closing : shape[close]? = some (some .closing)) :
    (∃ index, partner? shape index = some close) ∨
      ∃ inner < depth, closing? inner shape = some close := by
  induction shape generalizing depth close with
  | nil => cases closing
  | cons entry rest ih =>
      cases close with
      | zero =>
          cases closing
          cases depth with
          | zero => exact admitted.elim
          | succ depth => exact .inr ⟨0, Nat.succ_pos depth, rfl⟩
      | succ close =>
          have shifted (found : ∃ index, partner? rest index = some close) :
              ∃ index, partner? (entry :: rest) index = some (close + 1) := by
            obtain ⟨index, found⟩ := found
            exact ⟨index + 1, by rw [partner?_cons, found, Option.map_some]⟩
          match entry, depth with
          | none, _ =>
              rcases ih admitted closing with pair | ⟨inner, less, found⟩
              · exact .inl (shifted pair)
              · exact .inr ⟨inner, less, by rw [closing?, found, Option.map_some]⟩
          | some .opening, _ =>
              rcases ih admitted.2 closing with pair | ⟨inner, less, found⟩
              · exact .inl (shifted pair)
              · cases inner with
                | zero => exact .inl ⟨0, by rw [partner?_zero, found, Option.map_some]⟩
                | succ inner =>
                    exact .inr ⟨inner, Nat.lt_of_succ_lt_succ less, by
                      rw [closing?, found, Option.map_some]⟩
          | some .closing, 0 => exact admitted.elim
          | some .closing, depth + 1 =>
              rcases ih admitted closing with pair | ⟨inner, less, found⟩
              · exact .inl (shifted pair)
              · exact .inr ⟨inner + 1, Nat.succ_lt_succ less, by
                  rw [closing?, found, Option.map_some]⟩

/-- Of two brackets around the sequence the inner one is closed first. -/
theorem closing?_lt_closing? {inner outer first second : Nat} (less : inner < outer)
    (found : closing? inner shape = some first) (found_outer : closing? outer shape = some second) :
    first < second := by
  induction shape generalizing inner outer first second with
  | nil => cases found
  | cons entry rest ih =>
      match entry, inner, outer with
      | none, _, _ =>
          obtain ⟨distance, found_rest, rfl⟩ := Option.map_eq_some_iff.1 found
          obtain ⟨other, outer_rest, rfl⟩ := Option.map_eq_some_iff.1 found_outer
          exact Nat.succ_lt_succ (ih less found_rest outer_rest)
      | some .opening, _, _ =>
          obtain ⟨distance, found_rest, rfl⟩ := Option.map_eq_some_iff.1 found
          obtain ⟨other, outer_rest, rfl⟩ := Option.map_eq_some_iff.1 found_outer
          exact Nat.succ_lt_succ (ih (Nat.succ_lt_succ less) found_rest outer_rest)
      | some .closing, 0, outer + 1 =>
          obtain ⟨other, outer_rest, rfl⟩ := Option.map_eq_some_iff.1 found_outer
          cases found
          exact Nat.succ_pos other
      | some .closing, inner + 1, outer + 1 =>
          obtain ⟨distance, found_rest, rfl⟩ := Option.map_eq_some_iff.1 found
          obtain ⟨other, outer_rest, rfl⟩ := Option.map_eq_some_iff.1 found_outer
          exact Nat.succ_lt_succ (ih (Nat.lt_of_succ_lt_succ less) found_rest outer_rest)

/-- A pair that opens before a bracket around the sequence is closed also ends before that. -/
theorem partner?_lt_closing? (found : closing? depth shape = some distance)
    (partner : partner? shape index = some close) (less : index < distance) : close < distance := by
  induction shape generalizing depth distance index close with
  | nil => cases found
  | cons entry rest ih =>
      cases index with
      | zero =>
          obtain ⟨opening, _, _⟩ := partner?_spec partner
          cases opening
          rw [partner?_zero] at partner
          obtain ⟨own, found_own, rfl⟩ := Option.map_eq_some_iff.1 partner
          obtain ⟨other, found_rest, rfl⟩ := Option.map_eq_some_iff.1 found
          exact Nat.succ_lt_succ (closing?_lt_closing? (Nat.succ_pos depth) found_own found_rest)
      | succ index =>
          rw [partner?_cons] at partner
          obtain ⟨own, partner_rest, rfl⟩ := Option.map_eq_some_iff.1 partner
          match entry, depth with
          | none, _ | some .opening, _ | some .closing, _ + 1 =>
              obtain ⟨other, found_rest, rfl⟩ := Option.map_eq_some_iff.1 found
              exact Nat.succ_lt_succ (ih found_rest partner_rest (Nat.lt_of_succ_lt_succ less))
          | some .closing, 0 =>
              cases found
              exact absurd less (Nat.not_lt_zero _)

/-! ## Matchings -/

/-- Each opening bracket has a later closing one as its partner, and no two pairs cross. -/
structure IsMatching (shape : List (Option Bracket)) (partner : Nat → Option Nat) : Prop where
  opening : ∀ index, (∃ close, partner index = some close) ↔ shape[index]? = some (some .opening)
  closing : ∀ close, (∃ index, partner index = some close) ↔ shape[close]? = some (some .closing)
  later : ∀ {index close}, partner index = some close → index < close
  injective : ∀ {first second close}, partner first = some close → partner second = some close →
    first = second
  nested_or_disjoint : ∀ {first second close last}, partner first = some close →
    partner second = some last → first < second → last < close ∨ close < second

theorem nested_or_disjoint_partner? {first second last : Nat}
    (outer : partner? shape first = some close) (inner : partner? shape second = some last)
    (less : first < second) : last < close ∨ close < second := by
  obtain ⟨opening, closing, _⟩ := partner?_spec outer
  obtain ⟨opening_inner, _, _⟩ := partner?_spec inner
  rcases Nat.lt_trichotomy second close with before | same | behind
  · left
    -- behind the outer opening bracket the inner pair starts before that bracket is closed
    have shape_eq := List.take_append_drop (first + 1) shape
    have length_eq : (shape.take (first + 1)).length = first + 1 := by
      rw [List.length_take]
      have inside := (List.getElem?_eq_some_iff.1 opening).1
      omega
    rw [partner?, opening] at outer
    obtain ⟨distance, found, rfl⟩ := Option.map_eq_some_iff.1 outer
    obtain ⟨offset, rfl⟩ := Nat.exists_eq_add_of_lt less
    have position : first + offset + 1 = (shape.take (first + 1)).length + offset := by
      rw [length_eq]
      omega
    rw [← shape_eq, position, partner?_append_right] at inner
    obtain ⟨own, partner, rfl⟩ := Option.map_eq_some_iff.1 inner
    have inside := partner?_lt_closing? found partner (by omega)
    omega
  · rw [same, closing] at opening_inner
    cases opening_inner
  · exact .inr behind

/-- Balanced brackets are matched by their partners. -/
theorem Admitted.isMatching (admitted : Admitted limit 0 shape) :
    IsMatching shape (partner? shape) where
  opening index :=
    ⟨fun ⟨_, found⟩ => (partner?_spec found).1, fun opening => admitted.exists_partner opening⟩
  closing close := by
    refine ⟨fun ⟨_, found⟩ => (partner?_spec found).2.1, fun closing => ?_⟩
    rcases admitted.exists_opening closing with pair | ⟨inner, less, _⟩
    · exact pair
    · exact absurd less (Nat.not_lt_zero inner)
  later found := (partner?_spec found).2.2
  injective {first second close} found other := by
    obtain ⟨_, _, first_less⟩ := partner?_spec found
    obtain ⟨_, _, second_less⟩ := partner?_spec other
    rcases Nat.lt_trichotomy first second with before | same | behind
    · have crossing := nested_or_disjoint_partner? found other before
      omega
    · exact same
    · have crossing := nested_or_disjoint_partner? other found behind
      omega
  nested_or_disjoint := nested_or_disjoint_partner?

namespace IsMatching

variable {partner other : Nat → Option Nat}

/-- If two matchings agree on later brackets, the one does not match a bracket farther away. -/
theorem not_lt (matching : IsMatching shape partner) (matching_other : IsMatching shape other)
    (agree : ∀ later, index < later → partner later = other later) {far : Nat}
    (found : partner index = some close) (found_other : other index = some far) :
    ¬close < far := by
  intro nearer
  have closing := (matching.closing close).1 ⟨index, found⟩
  obtain ⟨opened, opened_other⟩ := (matching_other.closing close).2 closing
  have less := matching.later found
  rcases Nat.lt_trichotomy opened index with before | rfl | behind
  · have crossing := matching_other.nested_or_disjoint opened_other found_other before
    omega
  · cases opened_other.symm.trans found_other
    exact absurd nearer (Nat.lt_irrefl close)
  · have same := matching.injective ((agree opened behind).trans opened_other) found
    exact absurd behind (same ▸ Nat.lt_irrefl index)

theorem eq_none (matching : IsMatching shape partner)
    (unopened : ¬shape[index]? = some (some .opening)) : partner index = none :=
  Option.eq_none_iff_forall_ne_some.2 fun close found =>
    unopened ((matching.opening index).1 ⟨close, found⟩)

/-- There is only one matching: it is determined from the last opening bracket backwards. -/
theorem eq (matching : IsMatching shape partner) (matching_other : IsMatching shape other) :
    partner = other := by
  have agree_from (count index : Nat) (near : shape.length ≤ index + count) :
      partner index = other index := by
    induction count generalizing index with
    | zero =>
        have outside : shape[index]? = none := List.getElem?_eq_none near
        have unopened : ¬shape[index]? = some (some .opening) := by
          rw [outside]
          exact nofun
        rw [matching.eq_none unopened, matching_other.eq_none unopened]
    | succ count ih =>
        by_cases opening : shape[index]? = some (some .opening)
        · obtain ⟨close, found⟩ := (matching.opening index).2 opening
          obtain ⟨far, found_other⟩ := (matching_other.opening index).2 opening
          have agree (later : Nat) (behind : index < later) : partner later = other later :=
            ih later (by omega)
          have not_nearer := matching.not_lt matching_other agree found found_other
          have not_farther := matching_other.not_lt matching
            (fun later behind => (agree later behind).symm) found_other found
          rw [found, found_other, Nat.le_antisymm (Nat.not_lt.1 not_farther)
            (Nat.not_lt.1 not_nearer)]
        · rw [matching.eq_none opening, matching_other.eq_none opening]
  exact funext fun index => agree_from shape.length index (Nat.le_add_left _ _)

end IsMatching

end Bracket

end FuzzyControl
