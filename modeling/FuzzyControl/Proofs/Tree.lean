import FuzzyControl.Language.Tree
import FuzzyControl.Proofs.Bracket
import FuzzyControl.Proofs.Outcome

/-!
# The tree that items form

A grammar on items says which sequences of items form which condition, and how deep
their brackets nest.  Building a condition from items follows this grammar: it
succeeds exactly on what the grammar derives, with the derived condition.
-/

namespace FuzzyControl

def Item.bracket? : Item → Option Bracket
  | .bracket own => some own
  | _ => none

def bracketShape (items : List Item) : List (Option Bracket) :=
  items.map (·.bracket?)

namespace Tree

mutual

/-- The items form one operand; at most `limit` brackets are open at once. -/
inductive Operand : Nat → List Item → Condition → Prop where
  | leaf {limit : Nat} (proposition : Proposition) :
      Operand limit [.leaf proposition] (.leaf proposition)
  | bracketed {limit : Nat} {items : List Item} {condition : Condition}
      (inner : Whole limit items condition) :
      Operand (limit + 1) (.bracket .opening :: (items ++ [.bracket .closing])) condition

/-- The items form a whole condition. -/
inductive Whole : Nat → List Item → Condition → Prop where
  | operand {limit : Nat} {items : List Item} {condition : Condition}
      (single : Operand limit items condition) : Whole limit items condition
  | chain {limit : Nat} {connective : Connective} {first rest : List Item} {child : Condition}
      {children : List Condition} (head : Operand limit first child)
      (tail : Chain limit connective rest children) :
      Whole limit (first ++ .connective connective :: rest)
        (.group connective false (child :: children))

/-- The items form operands that are joined by one connective. -/
inductive Chain : Nat → Connective → List Item → List Condition → Prop where
  | last {limit : Nat} {connective : Connective} {items : List Item} {child : Condition}
      (single : Operand limit items child) : Chain limit connective items [child]
  | more {limit : Nat} {connective : Connective} {first rest : List Item} {child : Condition}
      {children : List Condition} (head : Operand limit first child)
      (tail : Chain limit connective rest children) :
      Chain limit connective (first ++ .connective connective :: rest) (child :: children)

end

mutual

theorem Operand.mono {limit larger : Nat} {items : List Item} {condition : Condition}
    (le : limit ≤ larger) : Operand limit items condition → Operand larger items condition
  | .leaf proposition => .leaf proposition
  | .bracketed inner => by
      obtain ⟨more, rfl⟩ := Nat.exists_eq_add_of_le le
      rw [Nat.add_right_comm]
      exact .bracketed (Whole.mono (Nat.le_add_right _ _) inner)

theorem Whole.mono {limit larger : Nat} {items : List Item} {condition : Condition}
    (le : limit ≤ larger) : Whole limit items condition → Whole larger items condition
  | .operand single => .operand (Operand.mono le single)
  | .chain head tail => .chain (Operand.mono le head) (Chain.mono le tail)

theorem Chain.mono {limit larger : Nat} {connective : Connective} {items : List Item}
    {children : List Condition} (le : limit ≤ larger) :
    Chain limit connective items children → Chain larger connective items children
  | .last single => .last (Operand.mono le single)
  | .more head tail => .more (Operand.mono le head) (Chain.mono le tail)

end

theorem Operand.length_pos {limit : Nat} {items : List Item} {condition : Condition}
    (operand : Operand limit items condition) : 0 < items.length := by
  cases operand <;> exact Nat.succ_pos _

theorem Chain.length_pos {limit : Nat} {connective : Connective} {items : List Item}
    {children : List Condition} (chain : Chain limit connective items children) :
    0 < items.length := by
  cases chain with
  | last single => exact single.length_pos
  | more head tail =>
      have first := head.length_pos
      rw [List.length_append]
      omega

/-! ## Brackets of derived items -/

section Brackets

open FuzzyControl.Bracket

theorem bracketShape_append (first second : List Item) :
    bracketShape (first ++ second) = bracketShape first ++ bracketShape second :=
  List.map_append

theorem bracketShape_cons (item : Item) (rest : List Item) :
    bracketShape (item :: rest) = item.bracket? :: bracketShape rest :=
  rfl

/-- The items close the brackets that they open, at most `limit` at once. -/
structure Closed (limit : Nat) (items : List Item) : Prop where
  closing : ∀ depth rest, closing? depth (bracketShape items ++ rest) =
    (closing? depth rest).map (· + items.length)
  admitted : ∀ {bound depth rest}, depth + limit ≤ bound → Admitted (some bound) depth rest →
    Admitted (some bound) depth (bracketShape items ++ rest)

namespace Closed

theorem leaf (limit : Nat) (proposition : Proposition) : Closed limit [.leaf proposition] where
  closing _ _ := rfl
  admitted _ rest := rest

theorem bracketed {limit : Nat} {items : List Item} (closed : Closed limit items) :
    Closed (limit + 1) (.bracket .opening :: (items ++ [.bracket .closing])) where
  closing depth rest := by
    rw [bracketShape_cons, bracketShape_append, List.cons_append, List.append_assoc]
    change (closing? (depth + 1) (bracketShape items ++ some .closing :: rest)).map (· + 1) = _
    rw [closed.closing, closing?, map_add_map_add, map_add_map_add]
    congr 1
    funext distance
    simp only [List.length_cons, List.length_append, List.length_nil]
    omega
  admitted {bound depth rest} fits admitted := by
    rw [bracketShape_cons, bracketShape_append, List.cons_append, List.append_assoc]
    refine ⟨?_, closed.admitted (by omega) admitted⟩
    simp only [exceeded?, Option.filter_eq_none_iff, Option.some.injEq, decide_eq_true_eq]
    omega

theorem join {limit : Nat} {first rest : List Item} (left : Closed limit first)
    (connective : Connective) (right : Closed limit rest) :
    Closed limit (first ++ .connective connective :: rest) where
  closing depth later := by
    rw [bracketShape_append, bracketShape_cons, List.append_assoc, left.closing]
    change ((closing? depth (bracketShape rest ++ later)).map (· + 1)).map (· + first.length) = _
    rw [right.closing, map_add_map_add, map_add_map_add]
    congr 1
    funext distance
    simp only [List.length_append, List.length_cons]
    omega
  admitted fits admitted := by
    rw [bracketShape_append, bracketShape_cons, List.append_assoc]
    exact left.admitted fits (right.admitted fits admitted)

end Closed

mutual

theorem Operand.closed {limit : Nat} {items : List Item} {condition : Condition} :
    Operand limit items condition → Closed limit items
  | .leaf proposition => .leaf limit proposition
  | .bracketed inner => (Whole.closed inner).bracketed

theorem Whole.closed {limit : Nat} {items : List Item} {condition : Condition} :
    Whole limit items condition → Closed limit items
  | .operand single => Operand.closed single
  | .chain head tail => (Operand.closed head).join _ (Chain.closed tail)

theorem Chain.closed {limit : Nat} {connective : Connective} {items : List Item}
    {children : List Condition} :
    Chain limit connective items children → Closed limit items
  | .last single => Operand.closed single
  | .more head tail => (Operand.closed head).join _ (Chain.closed tail)

end

end Brackets

end Tree

/-! ## Steps of building -/

namespace Premise

variable {premise : Premise} {inner : Nat → Nat → Except LanguageError Condition}
  {start stop budget : Nat}

theorem operand_leaf {position : Nat} {token : String} {proposition : Proposition}
    (here : premise.items[start]? = some ⟨position, token, .leaf proposition⟩) :
    premise.operand inner stop start = .ok (.leaf proposition, start + 1) := by
  simp only [operand, here]

theorem operand_bracketed {position close : Nat} {token : String} {condition : Condition}
    (here : premise.items[start]? = some ⟨position, token, .bracket .opening⟩)
    (closed : premise.partner? start = some close) (after : start < close) (inside : close < stop)
    (read : inner (start + 1) close = .ok condition) :
    premise.operand inner stop start = .ok (condition, close + 1) := by
  simp only [operand, here, closed, after, inside, and_self, if_true, read, Except.map]

theorem chain_last {sofar : Option Connective} {first : Condition} {next : Nat}
    (read : premise.operand inner stop start = .ok (first, next)) (ended : stop ≤ next) :
    premise.chain inner stop sofar start = .ok ([first], sofar) := by
  rw [chain]
  simp only [read, ended, if_true]

theorem chain_more {sofar result : Option Connective} {first : Condition} {next position : Nat}
    {token : String} {own : Connective} {rest : List Condition}
    (read : premise.operand inner stop start = .ok (first, next)) (goesOn : next + 1 < stop)
    (advances : start < next + 1)
    (joined : premise.items[next]? = some ⟨position, token, .connective own⟩)
    (agrees : sofar.any (· != own) = false)
    (later : premise.chain inner stop (some own) (next + 1) = .ok (rest, result)) :
    premise.chain inner stop sofar start = .ok (first :: rest, result) := by
  rw [chain]
  simp only [read, joined, agrees, later, if_neg (by omega : ¬stop ≤ next),
    if_neg (by omega : ¬stop ≤ next + 1), Bool.false_eq_true, if_false, dif_pos advances]

theorem build_strip (enclosed : premise.partner? start = some (stop - 1)) (less : start < stop) :
    premise.build budget start stop = premise.build budget (start + 1) (stop - 1) := by
  cases budget with
  | zero => rfl
  | succ budget =>
      have step : premise.strip start stop = premise.strip (start + 1) (stop - 1) := by
        rw [strip, if_pos ⟨less, enclosed⟩]
      rw [build, build, step]

theorem strip_of_open (open_ : premise.partner? start ≠ some (stop - 1)) :
    premise.strip start stop = (start, stop) := by
  rw [strip, if_neg fun both => open_ both.2]

theorem loneLeaf?_eq_none (several : start + 1 < stop) : premise.loneLeaf? start stop = none := by
  unfold loneLeaf?
  split
  · omega
  · rfl

theorem build_leaf {proposition : Proposition}
    (open_ : premise.partner? start ≠ some (stop - 1)) (less : start < stop)
    (lone : premise.loneLeaf? start stop = some proposition) :
    premise.build (budget + 1) start stop = .ok (.leaf proposition) := by
  simp only [build, strip_of_open open_, if_neg (Nat.not_le_of_lt less), lone]

theorem build_group {connective : Connective} {children : List Condition}
    (open_ : premise.partner? start ≠ some (stop - 1)) (less : start < stop)
    (several : premise.loneLeaf? start stop = none)
    (read : premise.chain (premise.build budget) stop none start = .ok (children, some connective)) :
    premise.build (budget + 1) start stop = .ok (.group connective false children) := by
  simp only [build, strip_of_open open_, if_neg (Nat.not_le_of_lt less), several, read]

def contents (premise : Premise) : List Item :=
  premise.items.map (·.item)

/-- The table of partners is the one of the brackets among the items. -/
def Matched (premise : Premise) : Prop :=
  ∀ index, premise.partner? index = Bracket.partner? (bracketShape premise.contents) index

theorem ofItems_eq_ok_iff {items : List PlacedItem} {stop : Nat} :
    ofItems items stop = .ok premise ↔
      ∃ partners, Bracket.pairs (some maxNesting) (items.map (·.bracketEntry)) = .ok partners ∧
        premise = ⟨items, partners, stop⟩ := by
  unfold ofItems
  rw [Outcome.bind_eq_ok_iff]
  simp only [Except.ok.injEq, eq_comm]

theorem bracketEntry_shape (items : List PlacedItem) :
    (items.map (·.bracketEntry)).map (·.bracket) = bracketShape (items.map (·.item)) := by
  rw [bracketShape, List.map_map, List.map_map]
  refine List.map_congr_left fun placed _ => ?_
  obtain ⟨position, token, item⟩ := placed
  cases item <;> rfl

theorem matched_of_ofItems {items : List PlacedItem} {stop : Nat}
    (matched : ofItems items stop = .ok premise) : premise.Matched := by
  obtain ⟨partners, found, rfl⟩ := ofItems_eq_ok_iff.1 matched
  intro index
  have lookup := Bracket.lookup_pairs found index
  rwa [bracketEntry_shape] at lookup

/-- Brackets are matched exactly if they are balanced and do not nest too deep. -/
theorem ofItems_isOk_iff (items : List PlacedItem) (stop : Nat) :
    (∃ premise, ofItems items stop = .ok premise) ↔
      Bracket.Admitted (some maxNesting) 0 (bracketShape (items.map (·.item))) := by
  have isOk := Bracket.matchFrom_isOk_iff (some maxNesting) 0 [] (items.map (·.bracketEntry))
  rw [bracketEntry_shape] at isOk
  refine Iff.trans ?_ isOk
  constructor
  · rintro ⟨premise, matched⟩
    obtain ⟨partners, found, _⟩ := ofItems_eq_ok_iff.1 matched
    exact ⟨partners, found⟩
  · rintro ⟨partners, found⟩
    exact ⟨_, ofItems_eq_ok_iff.2 ⟨partners, found, rfl⟩⟩

section Derived

variable {before after : List Item}

theorem getElem?_items {item : Item} (here : premise.contents = before ++ item :: after) :
    ∃ position token, premise.items[before.length]? = some ⟨position, token, item⟩ := by
  have found : premise.contents[before.length]? = some item := by
    rw [here, List.getElem?_append_right (Nat.le_refl _), Nat.sub_self, List.getElem?_cons_zero]
  rw [contents, List.getElem?_map, Option.map_eq_some_iff] at found
  obtain ⟨⟨position, token, own⟩, found, rfl⟩ := found
  exact ⟨position, token, found⟩

theorem partner?_eq {item : Item} (matched : premise.Matched)
    (here : premise.contents = before ++ item :: after) :
    premise.partner? before.length =
      if item.bracket? = some .opening then
        (Bracket.closing? 0 (bracketShape after)).map (· + (before.length + 1))
      else none := by
  have length_eq : (bracketShape before).length = before.length := List.length_map _
  rw [matched, here, Tree.bracketShape_append, Tree.bracketShape_cons, ← length_eq,
    Bracket.partner?_append]

theorem partner?_leaf {proposition : Proposition} (matched : premise.Matched)
    (here : premise.contents = before ++ .leaf proposition :: after) :
    premise.partner? before.length = none := by
  rw [partner?_eq matched here]
  rfl

theorem partner?_bracketed {limit : Nat} {items : List Item} (matched : premise.Matched)
    (closed : Tree.Closed limit items)
    (here : premise.contents =
      before ++ (.bracket .opening :: (items ++ [.bracket .closing]) ++ after)) :
    premise.partner? before.length = some (before.length + items.length + 1) := by
  have shape : premise.contents =
      before ++ .bracket .opening :: (items ++ .bracket .closing :: after) := by
    rw [here]
    simp
  rw [partner?_eq matched shape, Tree.bracketShape_append, closed.closing]
  simp only [Item.bracket?, if_true, bracketShape, List.map_cons, Bracket.closing?,
    Option.map_some, Option.some.injEq]
  omega

end Derived

end Premise

/-! ## Derived items are built -/

namespace Tree

/-- Brackets around a whole range leave no trace. -/
theorem build_enclosed {premise : Premise} (matched : premise.Matched) {limit budget : Nat}
    {items before after : List Item} (closed : Closed limit items)
    (here : premise.contents =
      before ++ (.bracket .opening :: (items ++ [.bracket .closing]) ++ after)) :
    premise.build budget before.length
        (before.length + (Item.bracket .opening :: (items ++ [Item.bracket .closing])).length) =
      premise.build budget (before.length + 1) (before.length + 1 + items.length) := by
  have length_eq : (Item.bracket .opening :: (items ++ [Item.bracket .closing])).length =
      items.length + 2 := by simp
  have partner := Premise.partner?_bracketed matched closed here
  rw [length_eq, Premise.build_strip (by rw [partner]; rfl) (by omega)]
  congr 1
  omega

/-- An operand is never enclosed by the brackets of a longer range. -/
theorem Operand.not_enclosed {premise : Premise} (matched : premise.Matched) {limit : Nat}
    {items before after : List Item} {condition : Condition}
    (operand : Operand limit items condition) (here : premise.contents = before ++ (items ++ after))
    {stop : Nat} (longer : before.length + items.length < stop) :
    premise.partner? before.length ≠ some (stop - 1) := by
  cases operand with
  | leaf proposition =>
      rw [Premise.partner?_leaf matched here]
      exact nofun
  | bracketed inner =>
      rw [Premise.partner?_bracketed matched (Whole.closed inner) here]
      intro same
      have stop_eq := Option.some.inj same
      simp only [List.length_cons, List.length_append, List.length_nil] at longer
      omega

/-- A chain is read operand by operand. -/
theorem chain_join {premise : Premise} {inner : Nat → Nat → Except LanguageError Condition}
    {first rest before after : List Item} {connective : Connective} {child : Condition}
    {children : List Condition} {sofar : Option Connective}
    (here : premise.contents = before ++ ((first ++ .connective connective :: rest) ++ after))
    (first_pos : 0 < first.length) (rest_pos : 0 < rest.length) {stop : Nat}
    (stop_eq : stop = before.length + (first ++ Item.connective connective :: rest).length)
    (read : premise.operand inner stop before.length = .ok (child, before.length + first.length))
    (agrees : sofar.any (· != connective) = false)
    (later : premise.chain inner stop (some connective)
      (before ++ first ++ [Item.connective connective]).length = .ok (children, some connective)) :
    premise.chain inner stop sofar before.length = .ok (child :: children, some connective) := by
  have reassoc : premise.contents = (before ++ first) ++ .connective connective :: (rest ++ after) := by
    rw [here]
    simp
  obtain ⟨position, token, joined⟩ := Premise.getElem?_items reassoc
  simp only [List.length_append, List.length_cons, List.length_nil] at stop_eq joined later
  exact Premise.chain_more read (by omega) (by omega) joined agrees later

mutual

theorem Operand.built {premise : Premise} (matched : premise.Matched) {limit budget stop : Nat}
    {items before after : List Item} {condition : Condition} (fits : limit ≤ budget)
    (inside : before.length + items.length ≤ stop)
    (here : premise.contents = before ++ (items ++ after)) : Operand limit items condition →
    premise.operand (premise.build budget) stop before.length =
      .ok (condition, before.length + items.length)
  | .leaf proposition => by
      obtain ⟨position, token, found⟩ := Premise.getElem?_items here
      exact Premise.operand_leaf found
  | @Operand.bracketed limit items _ inner => by
      have opened : premise.contents =
          before ++ .bracket .opening :: (items ++ [.bracket .closing] ++ after) := by
        rw [here]
        rfl
      have enclosed : premise.contents =
          (before ++ [.bracket .opening]) ++ (items ++ (.bracket .closing :: after)) := by
        rw [here]
        simp
      obtain ⟨position, token, found⟩ := Premise.getElem?_items opened
      have partner := Premise.partner?_bracketed matched (Whole.closed inner) here
      have read := Whole.built matched fits enclosed inner
      rw [List.length_append, List.length_singleton, Nat.add_right_comm] at read
      simp only [List.length_append, List.length_cons, List.length_nil] at inside ⊢
      have after_open : before.length < before.length + items.length + 1 := by omega
      have before_stop : before.length + items.length + 1 < stop := by omega
      exact Premise.operand_bracketed found partner after_open before_stop read

theorem Whole.built {premise : Premise} (matched : premise.Matched) {limit budget : Nat}
    {items before after : List Item} {condition : Condition} (fits : limit < budget)
    (here : premise.contents = before ++ (items ++ after)) : Whole limit items condition →
    premise.build budget before.length (before.length + items.length) = .ok condition
  | .operand (.leaf proposition) => by
      obtain ⟨position, token, found⟩ := Premise.getElem?_items here
      obtain ⟨budget, rfl⟩ := Nat.exists_eq_succ_of_ne_zero (Nat.ne_zero_of_lt fits)
      refine Premise.build_leaf ?_ (by simp) ?_
      · rw [Premise.partner?_leaf matched here]
        exact nofun
      · simp only [Premise.loneLeaf?, found, List.length_singleton, Nat.add_sub_cancel_left]
  | @Whole.operand _ _ _ (@Operand.bracketed limit items _ inner) => by
      have enclosed : premise.contents =
          (before ++ [.bracket .opening]) ++ (items ++ (.bracket .closing :: after)) := by
        rw [here]
        simp
      -- stripping spends no budget, so the same one serves the smaller limit
      rw [build_enclosed matched (Whole.closed inner) here]
      have read := Whole.built matched (Nat.lt_of_succ_lt fits) enclosed inner
      rwa [List.length_append, List.length_singleton] at read
  | @Whole.chain _ connective first rest child children head tail => by
      obtain ⟨budget, rfl⟩ := Nat.exists_eq_succ_of_ne_zero (Nat.ne_zero_of_lt fits)
      have first_pos := head.length_pos
      have rest_pos := tail.length_pos
      have leftmost : premise.contents =
          before ++ (first ++ (.connective connective :: rest ++ after)) := by
        rw [here, List.append_assoc]
      have remaining : premise.contents =
          (before ++ first ++ [.connective connective]) ++ (rest ++ after) := by
        rw [here]
        simp
      have fits_budget := Nat.le_of_lt_succ fits
      refine Premise.build_group (Operand.not_enclosed matched head leftmost ?_) ?_ ?_ ?_
      · simp only [List.length_append, List.length_cons]
        omega
      · simp only [List.length_append, List.length_cons]
        omega
      · refine Premise.loneLeaf?_eq_none ?_
        simp only [List.length_append, List.length_cons]
        omega
      · refine chain_join here first_pos rest_pos rfl ?_ rfl ?_
        · exact Operand.built matched fits_budget (by simp) leftmost head
        · refine Chain.built matched fits_budget ?_ remaining tail
          simp only [List.length_append, List.length_cons, List.length_nil]
          omega

theorem Chain.built {premise : Premise} (matched : premise.Matched) {limit budget stop : Nat}
    {connective : Connective} {items before after : List Item} {children : List Condition}
    (fits : limit ≤ budget) (stop_eq : stop = before.length + items.length)
    (here : premise.contents = before ++ (items ++ after)) :
    Chain limit connective items children →
    premise.chain (premise.build budget) stop (some connective) before.length =
      .ok (children, some connective)
  | .last single => by
      refine Premise.chain_last (Operand.built matched fits (by omega) here single) (by omega)
  | @Chain.more _ _ first rest child children head tail => by
      have leftmost : premise.contents =
          before ++ (first ++ (.connective connective :: rest ++ after)) := by
        rw [here, List.append_assoc]
      have remaining : premise.contents =
          (before ++ first ++ [.connective connective]) ++ (rest ++ after) := by
        rw [here]
        simp
      have length_eq : (before ++ first ++ [Item.connective connective]).length + rest.length =
          stop := by
        rw [stop_eq]
        simp only [List.length_append, List.length_cons, List.length_nil]
        omega
      refine chain_join here head.length_pos tail.length_pos stop_eq ?_ (by simp) ?_
      · refine Operand.built matched fits ?_ leftmost head
        rw [List.length_append] at stop_eq
        omega
      · exact Chain.built matched fits length_eq.symm remaining tail

end

end Tree

/-! ## Built conditions are derived -/

theorem length_drop_take {α : Type} {entries : List α} {stop : Nat} (fits : stop ≤ entries.length)
    (start : Nat) : ((entries.take stop).drop start).length = stop - start := by
  rw [List.length_drop, List.length_take, Nat.min_eq_left fits]

/-- A range of entries consists of the entries up to an index in it and of those behind. -/
theorem drop_take_append {α : Type} (entries : List α) {start middle stop : Nat}
    (first : start ≤ middle) (second : middle ≤ stop) :
    (entries.take stop).drop start =
      (entries.take middle).drop start ++ (entries.take stop).drop middle := by
  obtain ⟨before, rfl⟩ := Nat.exists_eq_add_of_le first
  obtain ⟨after, rfl⟩ := Nat.exists_eq_add_of_le second
  rw [List.drop_take, List.drop_take, List.drop_take, Nat.add_sub_cancel_left,
    Nat.add_sub_cancel_left, Nat.add_assoc, Nat.add_sub_cancel_left, List.take_add,
    List.drop_drop]

namespace Premise

variable {premise : Premise} {inner : Nat → Nat → Except LanguageError Condition}
  {start stop : Nat}

def slice (premise : Premise) (start stop : Nat) : List Item :=
  (premise.contents.take stop).drop start

theorem slice_append {middle : Nat} (first : start ≤ middle) (second : middle ≤ stop) :
    premise.slice start stop = premise.slice start middle ++ premise.slice middle stop :=
  drop_take_append premise.contents first second

theorem slice_singleton {item : Item} (here : premise.contents[start]? = some item) :
    premise.slice start (start + 1) = [item] := by
  obtain ⟨less, _⟩ := List.getElem?_eq_some_iff.1 here
  rw [slice, List.take_add_one, here, Option.toList_some, List.drop_left']
  rw [List.length_take, Nat.min_eq_left (Nat.le_of_lt less)]

theorem slice_zero_length : premise.slice 0 premise.items.length = premise.contents := by
  have length_eq : premise.items.length = premise.contents.length := (List.length_map _).symm
  rw [slice, List.drop_zero, length_eq, List.take_length]

/-- What an operand is read from, if it is read. -/
theorem operand_eq_ok {condition : Condition} {next : Nat}
    (read : premise.operand inner stop start = .ok (condition, next)) :
    (∃ proposition, premise.contents[start]? = some (.leaf proposition) ∧
        condition = .leaf proposition ∧ next = start + 1) ∨
      ∃ close, premise.contents[start]? = some (.bracket .opening) ∧
        premise.partner? start = some close ∧ start < close ∧ close < stop ∧
        inner (start + 1) close = .ok condition ∧ next = close + 1 := by
  unfold operand at read
  cases found : premise.items[start]? with
  | none => simp [found] at read
  | some placed =>
      obtain ⟨position, token, item⟩ := placed
      have here : premise.contents[start]? = some item := by
        rw [contents, List.getElem?_map, found, Option.map_some]
      simp only [found] at read
      match item with
      | .leaf proposition =>
          cases read
          exact .inl ⟨proposition, here, rfl, rfl⟩
      | .bracket .opening =>
          simp only at read
          cases partner : premise.partner? start with
          | none => simp [partner] at read
          | some close =>
              simp only [partner] at read
              split at read
              · rename_i bounds
                obtain ⟨own, readInner, same⟩ := Outcome.map_eq_ok_iff.1 read
                cases same
                exact .inr ⟨close, here, rfl, bounds.1, bounds.2, readInner, rfl⟩
              · cases read
      | .bracket .closing => cases read
      | .connective _ => cases read

/-- What a chain is read from, if it is read. -/
theorem chain_eq_ok {sofar result : Option Connective} {children : List Condition}
    (read : premise.chain inner stop sofar start = .ok (children, result)) :
    ∃ first next, premise.operand inner stop start = .ok (first, next) ∧
      ((stop ≤ next ∧ children = [first] ∧ result = sofar) ∨
        ∃ own rest, premise.contents[next]? = some (.connective own) ∧ next + 1 < stop ∧
          sofar.any (· != own) = false ∧
          premise.chain inner stop (some own) (next + 1) = .ok (rest, result) ∧
          children = first :: rest) := by
  rw [chain] at read
  cases operand : premise.operand inner stop start with
  | error cause => simp [operand] at read
  | ok pair =>
      obtain ⟨first, next⟩ := pair
      refine ⟨first, next, rfl, ?_⟩
      simp only [operand] at read
      split at read
      · rename_i ended
        cases read
        exact .inl ⟨ended, rfl, rfl⟩
      · split at read
        · cases read
        · rename_i placed found
          have here : premise.contents[next]? = some placed.item := by
            rw [contents, List.getElem?_map, found, Option.map_some]
          split at read
          · rename_i own is_connective
            rw [is_connective] at here
            split at read
            · cases read
            · rename_i agrees
              split at read
              · cases read
              · rename_i goesOn
                split at read
                · cases later : premise.chain inner stop (some own) (next + 1) with
                  | error cause => simp [later] at read
                  | ok outcome =>
                      simp only [later] at read
                      cases read
                      exact .inr ⟨own, outcome.1, here, Nat.lt_of_not_le goesOn,
                        Bool.eq_false_iff.2 agrees, later, rfl⟩
                · cases read
          · cases read

theorem loneLeaf?_eq_some {proposition : Proposition}
    (lone : premise.loneLeaf? start stop = some proposition) :
    stop = start + 1 ∧ premise.contents[start]? = some (.leaf proposition) := by
  unfold loneLeaf? at lone
  split at lone
  · rename_i position token own single found
    cases lone
    refine ⟨by omega, ?_⟩
    rw [contents, List.getElem?_map, found, Option.map_some]
  · cases lone

theorem Matched.partner (matched : premise.Matched) {close : Nat}
    (found : premise.partner? start = some close) :
    premise.contents[start]? = some (.bracket .opening) ∧
      premise.contents[close]? = some (.bracket .closing) ∧ start < close := by
  have shape {index : Nat} {bracket : Bracket}
      (at_index : (bracketShape premise.contents)[index]? = some (some bracket)) :
      premise.contents[index]? = some (.bracket bracket) := by
    rw [bracketShape, List.getElem?_map, Option.map_eq_some_iff] at at_index
    obtain ⟨item, here, bracket_eq⟩ := at_index
    cases item with
    | bracket own =>
        cases bracket_eq
        exact here
    | leaf proposition => cases bracket_eq
    | connective own => cases bracket_eq
  rw [matched] at found
  obtain ⟨opening, closing, less⟩ := Bracket.partner?_spec found
  exact ⟨shape opening, shape closing, less⟩

/-- A range between partners consists of its brackets and what they enclose. -/
theorem Matched.slice_eq (matched : premise.Matched) {close : Nat}
    (found : premise.partner? start = some close) :
    premise.slice start (close + 1) =
      .bracket .opening :: (premise.slice (start + 1) close ++ [.bracket .closing]) := by
  obtain ⟨opening, closing, less⟩ := matched.partner found
  rw [slice_append (Nat.le_succ start) (Nat.succ_le_succ (Nat.le_of_lt less)),
    slice_append less (Nat.le_succ close), slice_singleton opening, slice_singleton closing]
  rfl

end Premise

namespace Tree

section Sound

variable {premise : Premise} {inner : Nat → Nat → Except LanguageError Condition} {stop : Nat}

theorem operand_of_read (matched : premise.Matched)
    (sound : ∀ {start stop condition}, inner start stop = .ok condition →
      ∃ limit, Whole limit (premise.slice start stop) condition)
    {start next : Nat} {condition : Condition} (less : start < stop)
    (read : premise.operand inner stop start = .ok (condition, next)) :
    start < next ∧ next ≤ stop ∧ ∃ limit, Operand limit (premise.slice start next) condition := by
  rcases Premise.operand_eq_ok read with
    ⟨proposition, here, rfl, rfl⟩ | ⟨close, here, partner, after, inside, readInner, rfl⟩
  · refine ⟨Nat.lt_succ_self start, less, 0, ?_⟩
    rw [Premise.slice_singleton here]
    exact .leaf proposition
  · obtain ⟨limit, derived⟩ := sound readInner
    refine ⟨Nat.lt_succ_of_lt after, inside, limit + 1, ?_⟩
    rw [matched.slice_eq partner]
    exact .bracketed derived

theorem slice_join {start next : Nat} {own : Connective} (before : start ≤ next)
    (here : premise.contents[next]? = some (.connective own)) (inside : next + 1 < stop) :
    premise.slice start stop =
      premise.slice start next ++ .connective own :: premise.slice (next + 1) stop := by
  rw [Premise.slice_append before (by omega),
    Premise.slice_append (Nat.le_succ next) (Nat.le_of_lt inside), Premise.slice_singleton here]
  rfl

/-- A chain that goes on is a chain of the connective so far. -/
theorem chain_of_read (matched : premise.Matched)
    (sound : ∀ {start stop condition}, inner start stop = .ok condition →
      ∃ limit, Whole limit (premise.slice start stop) condition)
    {start : Nat} {own : Connective} {result : Option Connective} {children : List Condition}
    (less : start < stop)
    (read : premise.chain inner stop (some own) start = .ok (children, result)) :
    result = some own ∧ ∃ limit, Chain limit own (premise.slice start stop) children := by
  obtain ⟨first, next, operand, rest⟩ := Premise.chain_eq_ok read
  obtain ⟨advances, inside, limit, head⟩ := operand_of_read matched sound less operand
  rcases rest with ⟨ended, rfl, rfl⟩ | ⟨joined, others, here, goesOn, agrees, later, rfl⟩
  · rw [Nat.le_antisymm ended inside]
    exact ⟨rfl, limit, .last head⟩
  · have joined_eq : own = joined := by simpa using agrees
    subst joined_eq
    obtain ⟨result_eq, other, tail⟩ := chain_of_read matched sound goesOn later
    refine ⟨result_eq, max limit other, ?_⟩
    rw [slice_join (Nat.le_of_lt advances) here goesOn]
    exact .more (head.mono (Nat.le_max_left _ _)) (tail.mono (Nat.le_max_right _ _))
termination_by stop - start

/-- What is read without a connective is one operand, and all else is a group. -/
theorem whole_of_chain (matched : premise.Matched)
    (sound : ∀ {start stop condition}, inner start stop = .ok condition →
      ∃ limit, Whole limit (premise.slice start stop) condition)
    {start : Nat} {own : Connective} {children : List Condition} (less : start < stop)
    (read : premise.chain inner stop none start = .ok (children, some own)) :
    ∃ limit, Whole limit (premise.slice start stop) (.group own false children) := by
  obtain ⟨first, next, operand, rest⟩ := Premise.chain_eq_ok read
  obtain ⟨advances, inside, limit, head⟩ := operand_of_read matched sound less operand
  rcases rest with ⟨_, _, impossible⟩ | ⟨joined, others, here, goesOn, _, later, rfl⟩
  · cases impossible
  · obtain ⟨result_eq, other, tail⟩ := chain_of_read matched sound goesOn later
    cases result_eq
    refine ⟨max limit other, ?_⟩
    rw [slice_join (Nat.le_of_lt advances) here goesOn]
    exact .chain (head.mono (Nat.le_max_left _ _)) (tail.mono (Nat.le_max_right _ _))

theorem whole_of_strip (matched : premise.Matched) {start stop limit : Nat} {condition : Condition}
    (derived : Whole limit (premise.slice (premise.strip start stop).1 (premise.strip start stop).2)
      condition) :
    ∃ larger, Whole larger (premise.slice start stop) condition := by
  fun_induction premise.strip start stop generalizing limit with
  | case1 start stop enclosed ih =>
      -- every pair that was stripped is a pair of brackets in the derivation
      obtain ⟨larger, inner⟩ := ih derived
      have slice_eq := matched.slice_eq enclosed.2
      rw [Nat.sub_add_cancel (by omega : 1 ≤ stop)] at slice_eq
      rw [slice_eq]
      exact ⟨larger + 1, .operand (.bracketed inner)⟩
  | case2 start stop open_ => exact ⟨limit, derived⟩

/-- Every condition that is built is derived from the items of its range. -/
theorem whole_of_build (matched : premise.Matched) (budget : Nat) {start stop : Nat}
    {condition : Condition} (read : premise.build budget start stop = .ok condition) :
    ∃ limit, Whole limit (premise.slice start stop) condition := by
  induction budget generalizing start stop condition with
  | zero => cases read
  | succ budget ih =>
      simp only [Premise.build] at read
      split at read
      · cases read
      · rename_i nonempty
        have less := Nat.lt_of_not_le nonempty
        split at read
        · rename_i proposition lone
          cases read
          obtain ⟨stop_eq, here⟩ := Premise.loneLeaf?_eq_some lone
          have derived : Whole 0 [.leaf proposition] (.leaf proposition) :=
            .operand (.leaf proposition)
          rw [← Premise.slice_singleton here, ← stop_eq] at derived
          exact whole_of_strip matched derived
        · split at read
          · cases read
          · rename_i children connective chain
            cases read
            obtain ⟨limit, derived⟩ := whole_of_chain matched ih less chain
            exact whole_of_strip matched derived
          · cases read

end Sound

/-- The condition of a premise is derived from its items. -/
theorem whole_of_condition {items : List PlacedItem} {stop : Nat} {premise : Premise}
    {condition : Condition} (matched : Premise.ofItems items stop = .ok premise)
    (read : premise.condition = .ok condition) :
    ∃ limit, Whole limit (items.map (·.item)) condition := by
  obtain ⟨limit, derived⟩ := whole_of_build (Premise.matched_of_ofItems matched) _ read
  obtain ⟨partners, _, rfl⟩ := Premise.ofItems_eq_ok_iff.1 matched
  rw [Premise.slice_zero_length] at derived
  exact ⟨limit, derived⟩

/-- Items that form a condition within the nesting limit are built into it. -/
theorem Whole.condition_eq {items : List PlacedItem} {condition : Condition}
    (derived : Whole maxNesting (items.map (·.item)) condition) (stop : Nat) :
    ∃ premise, Premise.ofItems items stop = .ok premise ∧ premise.condition = .ok condition := by
  have closed := Whole.closed derived
  have admitted : Bracket.Admitted (some maxNesting) 0 (bracketShape (items.map (·.item)) ++ []) :=
    closed.admitted (Nat.le_of_eq (Nat.zero_add maxNesting)) rfl
  rw [List.append_nil] at admitted
  obtain ⟨premise, matched⟩ := (Premise.ofItems_isOk_iff items stop).2 admitted
  refine ⟨premise, matched, ?_⟩
  have tables := Premise.matched_of_ofItems matched
  obtain ⟨partners, _, rfl⟩ := Premise.ofItems_eq_ok_iff.1 matched
  have here : (Premise.mk items partners stop).contents = [] ++ (items.map (·.item) ++ []) :=
    (List.append_nil _).symm
  have built := Whole.built tables (Nat.lt_succ_self maxNesting) here derived
  rwa [List.length_map, List.length_nil, Nat.zero_add] at built

end Tree

end FuzzyControl
