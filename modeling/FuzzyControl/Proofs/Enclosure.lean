import FuzzyControl.Proofs.Matching
import FuzzyControl.Proofs.Totality

/-!
# Ranges that building comes to

The table of partners is the matching of the brackets among the items.  A range that is built or
that is left over when brackets around it are left out holds both brackets of a pair or neither.
-/

namespace FuzzyControl

namespace Premise

variable {premise : Premise} {limit start stop : Nat} {items : List Item}

/-- No pair of brackets has one of its brackets in the range and the other one outside. -/
def Encloses (premise : Premise) (start stop : Nat) : Prop :=
  (∀ opened < stop, start ≤ opened →
    premise.contents[opened]? = some (.bracket .opening) →
      ∃ close < stop, start ≤ close ∧ premise.partner? opened = some close) ∧
  ∀ close < stop, start ≤ close → premise.contents[close]? = some (.bracket .closing) →
    ∃ opened < stop, start ≤ opened ∧ premise.partner? opened = some close

instance (premise : Premise) (start stop : Nat) : Decidable (premise.Encloses start stop) :=
  inferInstanceAs (Decidable (_ ∧ _))

/--
Leaves out the brackets around a whole range, but refuses to go on once it has come to a range
that is not allowed.
-/
def stripWithin (premise : Premise) (allowed : Nat → Nat → Prop) [DecidableRel allowed]
    (refusal : LanguageError) (start stop : Nat) : Except LanguageError (Nat × Nat) :=
  if allowed start stop then
    if start < stop ∧ premise.partner? start = some (stop - 1) then
      premise.stripWithin allowed refusal (start + 1) (stop - 1)
    else .ok (start, stop)
  else .error refusal
termination_by stop - start

/-- What building does with a range once the brackets around it have been left out. -/
def buildStripped (premise : Premise) (inner : Nat → Nat → Except LanguageError Condition)
    (range : Nat × Nat) : Except LanguageError Condition :=
  if range.2 ≤ range.1 then .error (.incompleteCondition (premise.positionOf range.1))
  else
    match premise.loneLeaf? range.1 range.2 with
    | some proposition => .ok (.leaf proposition)
    | none =>
        match premise.chain inner range.2 none range.1 with
        | .error cause => .error cause
        | .ok (children, some connective) => .ok (.group connective false children)
        | .ok (_, none) => .error (.defect .missingConnective)

theorem build_succ (budget start stop : Nat) :
    premise.build (budget + 1) start stop =
      premise.buildStripped (premise.build budget) (premise.strip start stop) :=
  rfl

/-- Builds the condition of a range, but refuses ranges that are not allowed. -/
def buildWithin (premise : Premise) (allowed : Nat → Nat → Prop) [DecidableRel allowed]
    (refusal : LanguageError) : Nat → Nat → Nat → Except LanguageError Condition
  | 0, start, stop =>
      if allowed start stop then .error (.defect .nestingBudget) else .error refusal
  | budget + 1, start, stop =>
      premise.stripWithin allowed refusal start stop >>=
        premise.buildStripped (premise.buildWithin allowed refusal budget)

namespace Range

theorem getElem?_contents {before after : List Item}
    (here : premise.contents = before ++ (items ++ after)) {offset : Nat}
    (less : offset < items.length) :
    premise.contents[before.length + offset]? = items[offset]? := by
  rw [here, List.getElem?_append_right (Nat.le_add_right _ _), Nat.add_sub_cancel_left,
    List.getElem?_append_left less]

theorem partner?_of_shape (matched : premise.Matched) {before after : List Item}
    (here : premise.contents = before ++ (items ++ after)) {offset close : Nat}
    (found : Bracket.partner? (bracketShape items) offset = some close) :
    premise.partner? (before.length + offset) = some (before.length + close) := by
  have length_eq : (bracketShape before).length = before.length := List.length_map _
  rw [matched, here, Tree.bracketShape_append, Tree.bracketShape_append, ← length_eq,
    Bracket.partner?_append_right, Bracket.partner?_append_left found, Option.map_some,
    Nat.add_comm close]

/-- The brackets of a range are matched within the range. -/
theorem encloses (matched : premise.Matched) (range : premise.Range limit start stop items) :
    premise.Encloses start stop := by
  obtain ⟨⟨before, after, here, rfl⟩, rfl, balanced⟩ := range
  have length_eq : (bracketShape items).length = items.length := List.length_map _
  have bracket_at {offset : Nat} {own : Bracket} (less : offset < items.length)
      (found : premise.contents[before.length + offset]? = some (.bracket own)) :
      (bracketShape items)[offset]? = some (some own) := by
    rw [getElem?_contents here less] at found
    rw [bracketShape, List.getElem?_map, found]
    rfl
  have inside {offset : Nat} {entry : Option Bracket}
      (found : (bracketShape items)[offset]? = some entry) : offset < items.length :=
    length_eq ▸ (List.getElem?_eq_some_iff.1 found).1
  constructor
  · intro opened before_stop behind_start found
    obtain ⟨offset, rfl⟩ := Nat.exists_eq_add_of_le behind_start
    have less : offset < items.length := Nat.lt_of_add_lt_add_left before_stop
    obtain ⟨close, partner⟩ := balanced.exists_partner (bracket_at less found)
    have close_inside := inside (Bracket.partner?_spec partner).2.1
    exact ⟨before.length + close, Nat.add_lt_add_left close_inside _, Nat.le_add_right _ _,
      partner?_of_shape matched here partner⟩
  · intro close before_stop behind_start found
    obtain ⟨offset, rfl⟩ := Nat.exists_eq_add_of_le behind_start
    have less : offset < items.length := Nat.lt_of_add_lt_add_left before_stop
    obtain ⟨opened, partner⟩ := (balanced.isMatching.closing offset).2 (bracket_at less found)
    have opened_inside := inside (Bracket.partner?_spec partner).1
    exact ⟨before.length + opened, Nat.add_lt_add_left opened_inside _, Nat.le_add_right _ _,
      partner?_of_shape matched here partner⟩

/-- A range that a pair of brackets surrounds leads to the range inside of the pair. -/
theorem inside (matched : premise.Matched) (range : premise.Range limit start stop items)
    (enclosed : start < stop ∧ premise.partner? start = some (stop - 1)) :
    ∃ inner, premise.Range limit (start + 1) (stop - 1) inner := by
  obtain ⟨item, rest, rfl⟩ := range.cons enclosed.1
  cases item with
  | leaf _ | connective _ =>
      rw [range.partner?_eq_none matched rfl] at enclosed
      cases enclosed.2
  | bracket own =>
      cases own with
      | closing => exact range.not_closing.elim
      | opening =>
          obtain ⟨inner, _, close, partner, _, _, _, inner_range, _⟩ := range.bracketed matched
          cases partner.symm.trans enclosed.2
          exact ⟨inner, inner_range.mono (Nat.sub_le _ _)⟩

end Range

section Visited

variable {allowed : Nat → Nat → Prop} [DecidableRel allowed] {refusal : LanguageError}

/-- If all balanced ranges are allowed, then no shrunk range is refused. -/
theorem stripWithin_eq (matched : premise.Matched)
    (allows : ∀ {limit start stop items}, premise.Range limit start stop items →
      allowed start stop)
    {start stop : Nat} {items : List Item} (range : premise.Range limit start stop items) :
    ∃ first last left, premise.stripWithin allowed refusal start stop = .ok (first, last) ∧
      premise.strip start stop = (first, last) ∧ premise.Range limit first last left := by
  by_cases enclosed : start < stop ∧ premise.partner? start = some (stop - 1)
  · obtain ⟨inner, inner_range⟩ := range.inside matched enclosed
    obtain ⟨first, last, left, guarded, plain, left_range⟩ :=
      stripWithin_eq matched allows inner_range
    refine ⟨first, last, left, ?_, ?_, left_range⟩
    · rw [stripWithin, if_pos (allows range), if_pos enclosed, guarded]
    · rw [strip, if_pos enclosed, plain]
  · refine ⟨start, stop, items, ?_, ?_, range⟩
    · rw [stripWithin, if_pos (allows range), if_neg enclosed]
    · rw [strip, if_neg enclosed]
termination_by stop - start

variable {inner other : Nat → Nat → Except LanguageError Condition}

/-- Behind an operand its range goes on. -/
theorem Range.behind_operand (matched : premise.Matched)
    (range : premise.Range limit start stop items) (less : start < stop) {condition : Condition}
    {next : Nat} (read : premise.operand inner stop start = .ok (condition, next)) :
    start < next ∧ ∃ rest, premise.Range limit next stop rest := by
  obtain ⟨item, rest, rfl⟩ := range.cons less
  obtain ⟨_, placed, found, rfl⟩ := range.head
  have here : premise.contents[start]? = some placed.item := by
    rw [contents, List.getElem?_map, found, Option.map_some]
  rcases operand_eq_ok read with
    ⟨proposition, is_leaf, _, rfl⟩ | ⟨close, is_opening, partner, after, _, _, rfl⟩
  · have item_eq : placed.item = .leaf proposition := Option.some.inj (here.symm.trans is_leaf)
    rw [item_eq] at range
    exact ⟨Nat.lt_succ_self start, rest, range.tail rfl⟩
  · have item_eq : placed.item = .bracket .opening := Option.some.inj (here.symm.trans is_opening)
    rw [item_eq] at range
    obtain ⟨_, later, own, own_partner, _, _, _, _, later_range⟩ := range.bracketed matched
    cases own_partner.symm.trans partner
    exact ⟨Nat.lt_succ_of_lt after, later, later_range⟩

theorem operand_congr (matched : premise.Matched)
    (same : ∀ {limit start stop items}, premise.Range limit start stop items →
      inner start stop = other start stop)
    (range : premise.Range limit start stop items) (less : start < stop) :
    premise.operand inner stop start = premise.operand other stop start := by
  obtain ⟨item, rest, rfl⟩ := range.cons less
  obtain ⟨_, placed, here, rfl⟩ := range.head
  obtain ⟨position, token, item⟩ := placed
  rw [operand, operand, here]
  cases item with
  | leaf _ | connective _ => rfl
  | bracket own =>
      cases own with
      | closing => rfl
      | opening =>
          obtain ⟨_, _, close, partner, _, _, _, inner_range, _⟩ := range.bracketed matched
          simp only [partner, same inner_range]

theorem chain_congr (matched : premise.Matched)
    (same : ∀ {limit start stop items}, premise.Range limit start stop items →
      inner start stop = other start stop)
    {start : Nat} {items : List Item} (range : premise.Range limit start stop items)
    (less : start < stop) (sofar : Option Connective) :
    premise.chain inner stop sofar start = premise.chain other stop sofar start := by
  rw [chain, chain, operand_congr matched same range less]
  cases read : premise.operand other stop start with
  | error cause => rfl
  | ok result =>
      obtain ⟨first, next⟩ := result
      obtain ⟨advances, rest, rest_range⟩ := range.behind_operand matched less read
      dsimp only
      by_cases filled : stop ≤ next
      case pos => rw [if_pos filled, if_pos filled]
      obtain ⟨item, more, rfl⟩ := rest_range.cons (Nat.lt_of_not_le filled)
      obtain ⟨_, placed, here, rfl⟩ := rest_range.head
      obtain ⟨position, token, item⟩ := placed
      rw [if_neg filled, if_neg filled, here]
      cases item with
      | leaf _ | bracket _ => rfl
      | connective own =>
          by_cases ended : stop ≤ next + 1
          · simp only [if_pos ended]
          · have later := chain_congr matched same (rest_range.tail rfl)
              (Nat.lt_of_not_le ended) (some own)
            simp only [later]
termination_by stop - start

theorem buildStripped_congr (matched : premise.Matched)
    (same : ∀ {limit start stop items}, premise.Range limit start stop items →
      inner start stop = other start stop)
    (range : premise.Range limit start stop items) :
    premise.buildStripped inner (start, stop) = premise.buildStripped other (start, stop) := by
  by_cases empty : stop ≤ start
  · simp only [buildStripped, if_pos empty]
  · simp only [buildStripped, chain_congr matched same range (Nat.lt_of_not_le empty)]

/-- If all balanced ranges are allowed, then building comes to no other one. -/
theorem buildWithin_eq (matched : premise.Matched)
    (allows : ∀ {limit start stop items}, premise.Range limit start stop items →
      allowed start stop)
    {start stop : Nat} {items : List Item} (range : premise.Range limit start stop items)
    (budget : Nat) :
    premise.buildWithin allowed refusal budget start stop = premise.build budget start stop := by
  induction budget generalizing limit start stop items with
  | zero => exact if_pos (allows range)
  | succ budget ih =>
      obtain ⟨first, last, left, guarded, plain, left_range⟩ :=
        @stripWithin_eq _ _ allowed _ refusal matched allows _ _ _ range
      rw [buildWithin, guarded, Outcome.ok_bind, build_succ, plain]
      exact buildStripped_congr matched (fun range => ih range) left_range

end Visited

/--
Once the brackets of a premise have been matched, they are balanced, and the partner of an opening
bracket is the first later index up to which as many are closed as opened.  The pairs are the only
matching in which each bracket has one partner and any two pairs are nested or disjoint.  No range
that building comes to holds one bracket of a pair only: if such ranges were refused, for whatever
cause, the same condition would be built or the same error be met.
-/
theorem partners_match_brackets {placed : List PlacedItem} {stop : Nat} {premise : Premise}
    (matched : ofItems placed stop = .ok premise) :
    Bracket.Balanced (bracketShape (placed.map (·.item))) ∧
    (∀ opened, (bracketShape (placed.map (·.item)))[opened]? = some (some .opening) →
      ∃ close, premise.partner? opened = some close ∧
        IsLeast {last | opened < last ∧
          Bracket.Settles (bracketShape (placed.map (·.item))) opened last} close) ∧
    Bracket.IsMatching (bracketShape (placed.map (·.item))) premise.partner? ∧
    (∀ partner, Bracket.IsMatching (bracketShape (placed.map (·.item))) partner →
      partner = premise.partner?) ∧
    (∃ closes, Checked.Builder.partners (placed.map Checked.place) []
        (List.replicate placed.length 0) 0 (placed.map Checked.place) = .ok closes ∧
      ∀ opened close, premise.partner? opened = some close → closes[opened]? = some close) ∧
    ∀ refusal, premise.buildWithin premise.Encloses refusal (maxNesting + 1) 0
      premise.items.length = premise.condition := by
  have admitted := (ofItems_isOk_iff placed stop).1 ⟨premise, matched⟩
  have matching := matched_of_ofItems matched
  have contents_eq : premise.contents = placed.map (·.item) := by
    obtain ⟨partners, _, rfl⟩ := ofItems_eq_ok_iff.1 matched
    rfl
  have partner_eq : premise.partner? = Bracket.partner? (bracketShape (placed.map (·.item))) :=
    contents_eq ▸ funext matching
  have is_matching := partner_eq ▸ admitted.isMatching
  obtain ⟨closes, filled, _, closed⟩ := (Checked.agrees_closes placed stop).of_ok matched
  refine ⟨admitted.balanced, fun opened opening => ?_, is_matching,
    fun partner other => other.eq is_matching, ⟨closes, filled, closed⟩, fun refusal => ?_⟩
  · obtain ⟨close, partner⟩ := admitted.exists_partner opening
    exact ⟨close, partner_eq ▸ partner, Bracket.isLeast_partner? partner⟩
  · exact buildWithin_eq matching (fun range => range.encloses matching)
      (range_of_ofItems matched) (maxNesting + 1)

/-- Items of which the outer brackets leave no trace. -/
def enclosedItems : List PlacedItem :=
  [⟨1, "(", .bracket .opening⟩, ⟨2, "food", .leaf ⟨0, 0, false, none⟩⟩, ⟨5, "or", .connective .or⟩,
    ⟨6, "(", .bracket .opening⟩, ⟨7, "food", .leaf ⟨0, 1, true, some .very⟩⟩,
    ⟨12, ")", .bracket .closing⟩, ⟨13, ")", .bracket .closing⟩]

theorem enclosedItems_match :
    ∃ premise, ofItems enclosedItems 14 = .ok premise ∧
      IsLeast {last | 0 < last ∧
        Bracket.Settles (bracketShape (enclosedItems.map (·.item))) 0 last} 6 ∧
      ¬premise.Encloses 0 6 ∧
      ∀ refusal, premise.buildWithin premise.Encloses refusal (maxNesting + 1) 0
        premise.items.length =
          .ok (.group .or false [.leaf ⟨0, 0, false, none⟩, .leaf ⟨0, 1, true, some .very⟩]) := by
  have derived : Tree.Whole maxNesting (enclosedItems.map (·.item))
      (.group .or false [.leaf ⟨0, 0, false, none⟩, .leaf ⟨0, 1, true, some .very⟩]) :=
    .operand (.bracketed (.chain (.leaf _) (.last (.bracketed (.operand (.leaf _))))))
  obtain ⟨premise, found, condition_eq⟩ := derived.condition_eq 14
  obtain ⟨_, least, _, _, _, built⟩ := partners_match_brackets found
  obtain ⟨close, partner, is_least⟩ := least 0 rfl
  have last : premise.partner? 0 = some 6 := by
    cases found
    rfl
  have cut : ¬premise.Encloses 0 6 := by
    cases found
    decide
  cases last.symm.trans partner
  exact ⟨premise, found, is_least, cut, fun refusal => (built refusal).trans condition_eq⟩

end Premise

end FuzzyControl
