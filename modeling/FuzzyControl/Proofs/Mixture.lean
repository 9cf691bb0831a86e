import FuzzyControl.Proofs.Level
import FuzzyControl.Proofs.Printing

/-!
# Mixed connectives

Operands may be joined by any connectives and still be cut into items with balanced brackets.
Building the tree of such a premise fails exactly if some connective differs from the first one
of its level, and then at the leftmost of those connectives.
-/

namespace FuzzyControl

namespace Grammar

mutual

/-- The tokens are one operand, cut into items; connectives inside of it may be mixed. -/
inductive LooseOperand (vocabulary : Vocabulary) : Nat → List String → List Item → Prop where
  | leaf {limit : Nat} {tokens : List String} {proposition : Proposition}
      (spelled : Leaf vocabulary tokens proposition) :
      LooseOperand vocabulary limit tokens [.leaf proposition]
  | bracketed {limit : Nat} {tokens : List String} {items : List Item}
      (inner : LooseSequence vocabulary limit tokens items) :
      LooseOperand vocabulary (limit + 1)
        (Keyword.openBracket.text :: (tokens ++ [Keyword.closeBracket.text]))
        (.bracket .opening :: (items ++ [.bracket .closing]))

/--
The tokens are operands that any connectives join, cut into items; at most `limit` brackets are
open at once.
-/
inductive LooseSequence (vocabulary : Vocabulary) : Nat → List String → List Item → Prop where
  | single {limit : Nat} {tokens : List String} {items : List Item}
      (operand : LooseOperand vocabulary limit tokens items) :
      LooseSequence vocabulary limit tokens items
  | more {limit : Nat} {first rest : List String} {items others : List Item}
      (head : LooseOperand vocabulary limit first items) (connective : Connective)
      (tail : LooseSequence vocabulary limit rest others) :
      LooseSequence vocabulary limit (first ++ connective.keyword.text :: rest)
        (items ++ .connective connective :: others)

end

section Shape

variable {vocabulary : Vocabulary} {lexicon : Lexicon} {limit : Nat} {tokens : List String}
  {items : List Item}

theorem LooseOperand.length_pos (operand : LooseOperand vocabulary limit tokens items) :
    0 < items.length := by
  cases operand <;> exact Nat.succ_pos _

theorem LooseSequence.length_pos (sequence : LooseSequence vocabulary limit tokens items) :
    0 < items.length := by
  cases sequence with
  | single operand => exact operand.length_pos
  | more head connective tail =>
      rw [List.length_append]
      exact Nat.add_pos_left head.length_pos _

mutual

theorem LooseOperand.itemized {limit : Nat} {tokens : List String} {items : List Item} :
    LooseOperand vocabulary limit tokens items → Itemized vocabulary tokens items
  | .leaf spelled => by
      have cut := Itemized.leaf spelled .nil
      rwa [List.append_nil] at cut
  | .bracketed inner =>
      .bracket .opening ((LooseSequence.itemized inner).append (.bracket .closing .nil))

theorem LooseSequence.itemized {limit : Nat} {tokens : List String} {items : List Item} :
    LooseSequence vocabulary limit tokens items → Itemized vocabulary tokens items
  | .single operand => LooseOperand.itemized operand
  | .more head connective tail =>
      (LooseOperand.itemized head).append (.connective connective (LooseSequence.itemized tail))

end

mutual

theorem LooseOperand.closed {limit : Nat} {tokens : List String} {items : List Item} :
    LooseOperand vocabulary limit tokens items → Tree.Closed limit items
  | .leaf _ => .leaf _ _
  | .bracketed inner => (LooseSequence.closed inner).bracketed

theorem LooseSequence.closed {limit : Nat} {tokens : List String} {items : List Item} :
    LooseSequence vocabulary limit tokens items → Tree.Closed limit items
  | .single operand => LooseOperand.closed operand
  | .more head connective tail =>
      (LooseOperand.closed head).join connective (LooseSequence.closed tail)

end

theorem Leaf.balanced (built : vocabulary.lexicon = .ok lexicon) {proposition : Proposition}
    (spelled : Leaf vocabulary tokens proposition) : Balanced tokens := by
  have plain := spelled.not_bracket built
  refine ⟨⟨fun before initial => ?_, fun _ limited => nomatch limited⟩,
    openAfter_of_not_bracket plain⟩
  exact Int.le_of_eq
    (openAfter_of_not_bracket fun token member => plain token (initial.subset member)).symm

theorem Leaf.connective_not_mem (built : vocabulary.lexicon = .ok lexicon)
    {proposition : Proposition} (spelled : Leaf vocabulary tokens proposition)
    (connective : Connective) : connective.keyword.text ∉ tokens := by
  cases connective <;> exact spelled.keyword_not_mem built rfl

mutual

theorem LooseOperand.balanced (built : vocabulary.lexicon = .ok lexicon) {limit : Nat}
    {tokens : List String} {items : List Item} :
    LooseOperand vocabulary limit tokens items → Balanced tokens
  | .leaf spelled => spelled.balanced built
  | .bracketed inner => (LooseSequence.balanced built inner).enclosed

theorem LooseSequence.balanced (built : vocabulary.lexicon = .ok lexicon) {limit : Nat}
    {tokens : List String} {items : List Item} :
    LooseSequence vocabulary limit tokens items → Balanced tokens
  | .single operand => LooseOperand.balanced built operand
  | .more head connective tail =>
      (LooseOperand.balanced built head).append
        ((balanced_connective connective).append (LooseSequence.balanced built tail))

end

/-- The connectives inside of an operand are not on the level on which the operand stands. -/
theorem LooseOperand.leaderless (built : vocabulary.lexicon = .ok lexicon)
    (operand : LooseOperand vocabulary limit tokens items) : Leaderless tokens := by
  cases operand with
  | leaf spelled => exact leaderless_of_not_mem (spelled.connective_not_mem built)
  | bracketed inner => exact .enclosed (inner.balanced built)

end Shape

end Grammar

/-! ## Positions of items -/

/-- How many tokens an item stands for. -/
def Item.width : Item → Nat
  | .leaf proposition =>
      3 + (negationTokens proposition.negated).length + (hedgeTokens proposition.hedge).length
  | .bracket _ | .connective _ => 1

def Item.widths : List Item → Nat
  | [] => 0
  | item :: rest => item.width + widths rest

section Positions

variable {vocabulary : Vocabulary} {lexicon : Lexicon}

theorem Itemized.length_eq {tokens : List String} {items : List Item}
    (cut : Itemized vocabulary tokens items) : tokens.length = Item.widths items := by
  induction cut with
  | nil => rfl
  | leaf spelled rest ih =>
      obtain ⟨negated, hedge, declared, named⟩ := spelled
      rw [List.length_append, ih, Item.widths, Item.width]
      simp only [List.length_cons, List.length_append, List.length_nil]
      omega
  | bracket _ rest ih | connective _ rest ih =>
      rw [List.length_cons, ih, Item.widths, Item.width, Nat.add_comm]

/-- An item stands behind all tokens of the items in front of it. -/
theorem position_of_readItems (built : vocabulary.lexicon = .ok lexicon) {start : Nat}
    {words : List Word} (known : lexicon.Describes words) {placed : List PlacedItem}
    (read : readItems vocabulary start words = .ok placed) {before after : List PlacedItem}
    {each : PlacedItem} (split : placed = before ++ each :: after) :
    each.position = start + Item.widths (before.map (·.item)) := by
  fun_induction readItems vocabulary start words generalizing placed before with
  | case1 =>
      cases read
      cases before <;> cases split
  | case2 => cases read
  | case3 position word rest input lexeme reading leaf ih =>
      obtain ⟨later, found, rfl⟩ := Outcome.map_eq_ok_iff.1 read
      cases before with
      | nil =>
          cases split
          rfl
      | cons first before =>
          obtain ⟨rfl, later_eq⟩ := List.cons.inj split
          have is_input : lexicon.find? word.token = some (Owner.input input).lexeme := by
            rw [known.head, lexeme]
            rfl
          obtain ⟨signature, declared, _⟩ := (Vocabulary.find?_eq_owner_iff built).1 is_input
          obtain ⟨negated, hedge, term, index, more, _, _, rfl⟩ :=
            (LeafReading.read_eq_ok_iff built declared position known.tail).1 leaf
          have known_later : lexicon.Describes
              (rest.drop (3 + (negationTokens negated).length + (hedgeTokens hedge).length - 1)) :=
            fun other member => known.tail other (List.mem_of_mem_drop member)
          rw [ih known_later found later_eq, List.map_cons, Item.widths, Item.width, Nat.add_assoc]
  | case4 position word rest item is_item no_input ih =>
      obtain ⟨later, found, rfl⟩ := Outcome.map_eq_ok_iff.1 read
      cases before with
      | nil =>
          cases split
          rfl
      | cons first before =>
          obtain ⟨rfl, later_eq⟩ := List.cons.inj split
          have width_eq : item.width = 1 := by
            rcases (Word.item?_eq_some_iff built known.head).1 is_item with
              ⟨bracket, rfl, _⟩ | ⟨own, rfl, _⟩ <;> rfl
          rw [ih known.tail found later_eq, List.map_cons, Item.widths, width_eq, Nat.add_assoc]
  | case5 => cases read

/-- The items stand where their tokens do, the first of which stands at `start`. -/
def Premise.Laid (vocabulary : Vocabulary) (start : Nat) (premise : Premise) : Prop :=
  ∀ {tokens before item after}, Itemized vocabulary tokens before →
    premise.contents = before ++ item :: after →
    ∃ token, premise.items[before.length]? = some ⟨start + tokens.length, token, item⟩

theorem Premise.laid_of_readItems (built : vocabulary.lexicon = .ok lexicon) {start : Nat}
    {words : List Word} (known : lexicon.Describes words) {premise : Premise}
    (read : readItems vocabulary start words = .ok premise.items) :
    premise.Laid vocabulary start := by
  intro tokens before item after cut here
  obtain ⟨front, back, items_eq, rfl, back_eq⟩ := List.map_eq_append_iff.1 here
  obtain ⟨each, rest, rfl, rfl, _⟩ := List.map_eq_cons_iff.1 back_eq
  have position_eq := position_of_readItems built known read items_eq
  rw [cut.length_eq, List.length_map, items_eq, List.getElem?_append_right (Nat.le_refl _),
    Nat.sub_self, List.getElem?_cons_zero, ← position_eq]
  exact ⟨each.token, rfl⟩

end Positions

/-! ## Building loose premises -/

theorem Premise.operand_opening {premise : Premise}
    {inner : Nat → Nat → Except LanguageError Condition} {start stop position close : Nat}
    {token : String}
    (here : premise.items[start]? = some ⟨position, token, .bracket .opening⟩)
    (closed : premise.partner? start = some close) (after : start < close) (inside : close < stop) :
    premise.operand inner stop start =
      (inner (start + 1) close).map fun condition => (condition, close + 1) := by
  simp only [operand, here, closed, after, inside, and_self, if_true]

namespace Grammar

/--
The outcome is a success and the tokens agree, or they do not and the leftmost connective that
is mixed in is blamed.
-/
def Judged {α : Type} (start : Nat) (front tokens : List String) (succeeds : α → Prop) :
    Except LanguageError α → Prop
  | .ok result => succeeds result ∧ Agreeing front tokens
  | .error cause => ∃ before, FirstMixed front tokens before ∧
      cause = .inconsistentOperator (start + (front ++ before).length)

namespace Judged

variable {α β : Type} {start : Nat} {front tokens : List String} {succeeds : α → Prop}
  {outcome : Except LanguageError α}

theorem map (judged : Judged start front tokens succeeds outcome) {change : α → β}
    {goal : β → Prop} (images : ∀ result, succeeds result → goal (change result)) :
    Judged start front tokens goal (outcome.map change) := by
  cases outcome with
  | ok result => exact ⟨images result judged.1, judged.2⟩
  | error cause => exact judged

/-- What brackets enclose is judged on its own. -/
theorem enclosed
    (judged : Judged start (front ++ [Keyword.openBracket.text]) tokens succeeds outcome) :
    Judged start front (Keyword.openBracket.text :: (tokens ++ [Keyword.closeBracket.text]))
      succeeds outcome := by
  have opens := agreeing_bracket front .opening
  cases outcome with
  | ok result =>
      exact ⟨judged.1, opens.append (judged.2.append (agreeing_bracket _ .closing))⟩
  | error cause =>
      obtain ⟨before, mixed, rfl⟩ := judged
      refine ⟨_, FirstMixed.append_left opens (mixed.append_right _), ?_⟩
      rw [List.append_assoc]
      rfl

end Judged

section Building

variable {premise : Premise} {inner : Nat → Nat → Except LanguageError Condition}
  {vocabulary : Vocabulary} {lexicon : Lexicon} {start : Nat}

/-- A chain is judged operand by operand, each connective between two of them. -/
theorem judged_join (laid : premise.Laid vocabulary start)
    {front firstTokens restTokens : List String} {before first rest after : List Item}
    {connective : Connective} {sofar : Option Connective}
    (cut : Itemized vocabulary front before) (cut_first : Itemized vocabulary firstTokens first)
    (balanced : Balanced firstTokens) (leaderless : Leaderless firstTokens)
    (led : LedBy sofar front)
    (here : premise.contents = before ++ ((first ++ .connective connective :: rest) ++ after))
    (first_pos : 0 < first.length) (rest_pos : 0 < rest.length) {stop : Nat}
    (stop_eq : stop = before.length + (first ++ Item.connective connective :: rest).length)
    (operand : Judged start front firstTokens
      (fun result => result.2 = before.length + first.length)
      (premise.operand inner stop before.length))
    (later : LedBy (some connective) (front ++ firstTokens ++ [connective.keyword.text]) →
      Judged start (front ++ firstTokens ++ [connective.keyword.text]) restTokens
        (fun result => result.2.isSome = true)
        (premise.chain inner stop (some connective)
          (before ++ first ++ [Item.connective connective]).length)) :
    Judged start front (firstTokens ++ connective.keyword.text :: restTokens)
      (fun result => result.2.isSome = true) (premise.chain inner stop sofar before.length) := by
  have led_first : LedBy sofar (front ++ firstTokens) := led.append balanced leaderless
  have reassoc : premise.contents =
      (before ++ first) ++ .connective connective :: (rest ++ after) := by
    rw [here]
    simp
  obtain ⟨token, joined⟩ := laid (cut.append cut_first) reassoc
  simp only [List.length_append, List.length_cons, List.length_nil] at stop_eq joined later
  rw [Premise.chain]
  cases read : premise.operand inner stop before.length with
  | error cause =>
      rw [read] at operand
      obtain ⟨inside, mixed, rfl⟩ := operand
      exact ⟨inside, mixed.append_right _, rfl⟩
  | ok result =>
      rw [read] at operand
      obtain ⟨child, next⟩ := result
      obtain ⟨rfl, agrees⟩ := operand
      simp only [if_neg (by omega : ¬stop ≤ before.length + first.length),
        if_neg (by omega : ¬stop ≤ before.length + first.length + 1),
        dif_pos (by omega : before.length < before.length + first.length + 1), joined]
      by_cases differs : sofar.any (· != connective) = true
      · rw [if_pos differs]
        have mixes : Mixes (front ++ firstTokens) connective := led_first.mixes_iff.2 differs
        refine ⟨firstTokens, ⟨connective, restTokens, rfl, mixes, agrees⟩, ?_⟩
        rw [List.length_append]
      · have agrees_joined : Agreeing front (firstTokens ++ [connective.keyword.text]) :=
          agrees.append (agreeing_connective fun mixes => differs (led_first.mixes_iff.1 mixes))
        have judged := later (led_first.join (Bool.eq_false_iff.2 differs))
        have split : firstTokens ++ connective.keyword.text :: restTokens =
            firstTokens ++ [connective.keyword.text] ++ restTokens := by
          rw [List.append_assoc, List.singleton_append]
        rw [if_neg differs, split]
        rw [List.append_assoc] at judged
        cases chained : premise.chain inner stop (some connective)
            (before.length + first.length + 1) with
        | error cause =>
            rw [chained] at judged
            obtain ⟨inside, mixed, rfl⟩ := judged
            refine ⟨_, FirstMixed.append_left agrees_joined mixed, ?_⟩
            rw [List.append_assoc]
        | ok result =>
            rw [chained] at judged
            exact ⟨judged.1, agrees_joined.append judged.2⟩

/-- A range with a connective is built exactly if its chain is. -/
theorem judged_group {front tokens : List String} {budget first stop : Nat}
    (open_ : premise.partner? first ≠ some (stop - 1)) (several : first + 1 < stop)
    (chained : Judged start front tokens (fun result => result.2.isSome = true)
      (premise.chain (premise.build budget) stop none first)) :
    Judged start front tokens (fun _ => True) (premise.build (budget + 1) first stop) := by
  simp only [Premise.build, Premise.strip_of_open open_, if_neg (by omega : ¬stop ≤ first),
    Premise.loneLeaf?_eq_none several]
  cases read : premise.chain (premise.build budget) stop none first with
  | error cause =>
      rw [read] at chained
      exact chained
  | ok result =>
      rw [read] at chained
      obtain ⟨children, joined⟩ := result
      cases joined with
      | some connective => exact ⟨trivial, chained.2⟩
      | none => cases chained.1

/-- An operand is never enclosed by the brackets of a longer range. -/
theorem LooseOperand.not_enclosed (matched : premise.Matched) {limit : Nat} {tokens : List String}
    {items before after : List Item} (operand : LooseOperand vocabulary limit tokens items)
    (here : premise.contents = before ++ (items ++ after)) {stop : Nat}
    (longer : before.length + items.length < stop) :
    premise.partner? before.length ≠ some (stop - 1) := by
  cases operand with
  | leaf spelled =>
      rw [Premise.partner?_leaf matched here]
      exact nofun
  | bracketed inner =>
      rw [Premise.partner?_bracketed matched inner.closed here]
      intro same
      have stop_eq := Option.some.inj same
      simp only [List.length_cons, List.length_append, List.length_nil] at longer
      omega

mutual

theorem LooseOperand.judged (built : vocabulary.lexicon = .ok lexicon)
    (matched : premise.Matched) (laid : premise.Laid vocabulary start) {limit budget stop : Nat}
    {front tokens : List String} {items before after : List Item} (fits : limit ≤ budget)
    (inside : before.length + items.length ≤ stop) (cut : Itemized vocabulary front before)
    (here : premise.contents = before ++ (items ++ after)) :
    LooseOperand vocabulary limit tokens items →
    Judged start front tokens (fun result => result.2 = before.length + items.length)
      (premise.operand (premise.build budget) stop before.length)
  | .leaf spelled => by
      obtain ⟨token, found⟩ := laid cut here
      rw [Premise.operand_leaf found]
      exact ⟨rfl, agreeing_of_not_mem (spelled.connective_not_mem built)⟩
  | @LooseOperand.bracketed _ limit tokens items inner => by
      have opened : premise.contents =
          before ++ .bracket .opening :: (items ++ [.bracket .closing] ++ after) := by
        rw [here]
        rfl
      have enclosed : premise.contents =
          (before ++ [.bracket .opening]) ++ (items ++ (.bracket .closing :: after)) := by
        rw [here]
        simp
      obtain ⟨token, found⟩ := laid cut opened
      have partner := Premise.partner?_bracketed matched (LooseSequence.closed inner) here
      have cut_open := cut.append (.bracket .opening .nil)
      have fresh := Leaderless.opening front
      have judged := LooseSequence.judged built matched laid fits cut_open fresh enclosed inner
      rw [List.length_append, List.length_singleton, Nat.add_right_comm] at judged
      simp only [List.length_append, List.length_cons, List.length_nil] at inside ⊢
      have after_open : before.length < before.length + items.length + 1 := by omega
      have before_stop : before.length + items.length + 1 < stop := by omega
      rw [Premise.operand_opening found partner after_open before_stop]
      exact judged.enclosed.map fun _ _ => rfl

/-- A range that is one operand is built as it stands, or from inside of its brackets. -/
theorem LooseOperand.judged_build (built : vocabulary.lexicon = .ok lexicon)
    (matched : premise.Matched) (laid : premise.Laid vocabulary start) {limit budget : Nat}
    {front tokens : List String} {items before after : List Item} (fits : limit < budget)
    (cut : Itemized vocabulary front before)
    (here : premise.contents = before ++ (items ++ after)) :
    LooseOperand vocabulary limit tokens items →
    Judged start front tokens (fun _ => True)
      (premise.build budget before.length (before.length + items.length))
  | @LooseOperand.leaf _ _ tokens proposition spelled => by
      obtain ⟨token, found⟩ := laid cut here
      obtain ⟨budget, rfl⟩ := Nat.exists_eq_succ_of_ne_zero (Nat.ne_zero_of_lt fits)
      have open_ : premise.partner? before.length ≠ some (before.length + 1 - 1) := by
        rw [Premise.partner?_leaf matched here]
        exact nofun
      have lone : premise.loneLeaf? before.length (before.length + 1) = some proposition := by
        simp only [Premise.loneLeaf?, found, Nat.add_sub_cancel_left]
      rw [List.length_singleton, Premise.build_leaf open_ (Nat.lt_succ_self _) lone]
      exact ⟨trivial, agreeing_of_not_mem (spelled.connective_not_mem built)⟩
  | @LooseOperand.bracketed _ limit tokens items inner => by
      have enclosed : premise.contents =
          (before ++ [.bracket .opening]) ++ (items ++ (.bracket .closing :: after)) := by
        rw [here]
        simp
      have cut_open := cut.append (.bracket .opening .nil)
      -- stripping spends no budget, so the same one serves the smaller limit
      rw [Tree.build_enclosed matched (LooseSequence.closed inner) here]
      have judged := LooseSequence.judged built matched laid (Nat.lt_of_succ_lt fits) cut_open
        (Leaderless.opening front) enclosed inner
      rw [List.length_append, List.length_singleton] at judged
      exact judged.enclosed

theorem LooseSequence.judged (built : vocabulary.lexicon = .ok lexicon)
    (matched : premise.Matched) (laid : premise.Laid vocabulary start) {limit budget : Nat}
    {front tokens : List String} {items before after : List Item} (fits : limit < budget)
    (cut : Itemized vocabulary front before) (led : LedBy none front)
    (here : premise.contents = before ++ (items ++ after)) :
    LooseSequence vocabulary limit tokens items →
    Judged start front tokens (fun _ => True)
      (premise.build budget before.length (before.length + items.length))
  | .single operand => LooseOperand.judged_build built matched laid fits cut here operand
  | @LooseSequence.more _ _ firstTokens restTokens first rest head connective tail => by
      obtain ⟨budget, rfl⟩ := Nat.exists_eq_succ_of_ne_zero (Nat.ne_zero_of_lt fits)
      have first_pos := head.length_pos
      have rest_pos := tail.length_pos
      have leftmost : premise.contents =
          before ++ (first ++ (.connective connective :: rest ++ after)) := by
        rw [here, List.append_assoc]
      have remaining : premise.contents =
          (before ++ first ++ [.connective connective]) ++ (rest ++ after) := by
        rw [here]
        simp
      have fits_budget := Nat.le_of_lt_succ fits
      have cut_first := LooseOperand.itemized head
      have cut_join := (cut.append cut_first).append (.connective connective .nil)
      refine judged_group (LooseOperand.not_enclosed matched head leftmost ?_) ?_ ?_
      · simp only [List.length_append, List.length_cons]
        omega
      · simp only [List.length_append, List.length_cons]
        omega
      · refine judged_join laid cut cut_first (LooseOperand.balanced built head)
          (head.leaderless built) led here first_pos rest_pos rfl ?_ fun led => ?_
        · exact LooseOperand.judged built matched laid fits_budget (by simp) cut leftmost head
        · refine LooseSequence.judged_chain built matched laid fits_budget ?_ cut_join led remaining
            tail
          simp only [List.length_append, List.length_cons, List.length_nil]
          omega

theorem LooseSequence.judged_chain (built : vocabulary.lexicon = .ok lexicon)
    (matched : premise.Matched) (laid : premise.Laid vocabulary start) {limit budget stop : Nat}
    {front tokens : List String} {items before after : List Item} {leader : Connective}
    (fits : limit ≤ budget) (stop_eq : stop = before.length + items.length)
    (cut : Itemized vocabulary front before) (led : LedBy (some leader) front)
    (here : premise.contents = before ++ (items ++ after)) :
    LooseSequence vocabulary limit tokens items →
    Judged start front tokens (fun result => result.2.isSome = true)
      (premise.chain (premise.build budget) stop (some leader) before.length)
  | .single operand => by
      have inside : before.length + items.length ≤ stop := Nat.le_of_eq stop_eq.symm
      have judged := LooseOperand.judged built matched laid fits inside cut here operand
      rw [Premise.chain]
      cases read : premise.operand (premise.build budget) stop before.length with
      | error cause =>
          rw [read] at judged
          exact judged
      | ok result =>
          rw [read] at judged
          obtain ⟨child, next⟩ := result
          obtain ⟨rfl, agrees⟩ := judged
          simp only [if_pos (Nat.le_of_eq stop_eq)]
          exact ⟨rfl, agrees⟩
  | @LooseSequence.more _ _ firstTokens restTokens first rest head connective tail => by
      have leftmost : premise.contents =
          before ++ (first ++ (.connective connective :: rest ++ after)) := by
        rw [here, List.append_assoc]
      have remaining : premise.contents =
          (before ++ first ++ [.connective connective]) ++ (rest ++ after) := by
        rw [here]
        simp
      have length_eq : (before ++ first ++ [Item.connective connective]).length + rest.length =
          stop := by
        rw [stop_eq]
        simp only [List.length_append, List.length_cons, List.length_nil]
        omega
      have cut_first := LooseOperand.itemized head
      have cut_join := (cut.append cut_first).append (.connective connective .nil)
      refine judged_join laid cut cut_first (LooseOperand.balanced built head)
        (head.leaderless built) led here head.length_pos tail.length_pos stop_eq ?_ fun led => ?_
      · refine LooseOperand.judged built matched laid fits ?_ cut leftmost head
        rw [List.length_append] at stop_eq
        omega
      · exact LooseSequence.judged_chain built matched laid fits length_eq.symm cut_join led
          remaining tail

end

end Building

end Grammar

/-! ## Conclusions -/

def LanguageError.BesidesConnectives : LanguageError → Prop
  | .inconsistentOperator _ => False
  | _ => True

section Conclusions

open LanguageError Outcome

theorem Bracket.matchFrom_besides_connectives (limit : Option Nat) (index : Nat)
    (pending : List Pending) (entries : List BracketEntry) :
    Blames BesidesConnectives (matchFrom limit index pending entries) := by
  induction entries generalizing index pending with
  | nil => cases pending <;> trivial
  | cons entry rest ih =>
      unfold matchFrom
      split
      · exact ih _ _
      · split
        · trivial
        · exact ih _ _
      · split
        · trivial
        · exact (ih _ _).map _

theorem Word.resolve_besides_connectives (word : Word) (position : Nat) (owner : Owner)
    (ownerName : String) :
    Blames BesidesConnectives (word.resolve position owner ownerName) := by
  unfold resolve
  split
  · split <;> trivial
  · trivial

/-- A conclusion has no connectives that could be blamed. -/
theorem Conclusion.read_besides_connectives (vocabulary : Vocabulary) (position : Nat)
    (words : List Word) : Blames BesidesConnectives (read vocabulary position words) := by
  have plain (position : Nat) (words : List Word) :
      Blames BesidesConnectives (readPlain vocabulary position words) := by
    unfold readPlain
    split
    · refine Blames.bind (by unfold subject; split <;> trivial) fun key _ => ?_
      split
      · split
        · trivial
        · exact (Word.resolve_besides_connectives _ _ _ _).bind fun _ _ => trivial
      · trivial
    · trivial
  refine (Bracket.matchFrom_besides_connectives _ _ _ _).bind fun _ _ => ?_
  split <;> exact plain _ _

end Conclusions

/-! ## Rule texts -/

/-- A text with a loose premise is refused for its connectives, or they agree and it is not. -/
theorem Vocabulary.readText_of_loose {vocabulary : Vocabulary} {lexicon : Lexicon}
    (built : vocabulary.lexicon = .ok lexicon) {text : String} {premise concluding : List String}
    {items : List Item}
    (tokens_eq : tokenize text =
      Keyword.ifWord.text :: (premise ++ Keyword.thenWord.text :: concluding))
    (registered : ∀ token ∈ concluding, ∃ lexeme, lexicon.find? token = some lexeme)
    (loose : Grammar.LooseSequence vocabulary maxNesting premise items) :
    (Grammar.Agreeing [] premise ∧ ∀ position,
        vocabulary.readText lexicon text ≠ .error (.inconsistentOperator position)) ∨
      ∃ before, Grammar.FirstMixed [] premise before ∧
        vocabulary.readText lexicon text = .error (.inconsistentOperator (before.length + 1)) := by
  have cut := loose.itemized
  have all_known : ∀ token ∈ tokenize text, ∃ lexeme, lexicon.find? token = some lexeme := by
    rw [tokens_eq]
    refine List.forall_mem_cons.2 ⟨⟨_, find?_keyword built .ifWord⟩, ?_⟩
    refine List.forall_mem_append.2 ⟨Grammar.known_of_itemized built cut, ?_⟩
    exact List.forall_mem_cons.2 ⟨⟨_, find?_keyword built .thenWord⟩, registered⟩
  obtain ⟨words, words_eq, known⟩ := Lexicon.exists_describes all_known
  obtain ⟨first, inside, turn, after, rfl, rfl, rfl, starts, found⟩ :=
    exists_parts built known (words_eq.trans tokens_eq) (Grammar.thenWord_not_mem built cut)
  obtain ⟨known_inside, _, _⟩ := describes_parts known
  obtain ⟨placed, read, rfl⟩ := readItems_of_itemized built 1 cut known_inside rfl
  have admitted : Bracket.Admitted (some maxNesting) 0
      (bracketShape (placed.map (·.item)) ++ []) :=
    loose.closed.admitted (Nat.le_of_eq (Nat.zero_add maxNesting)) rfl
  rw [List.append_nil] at admitted
  obtain ⟨premise, matched⟩ := (Premise.ofItems_isOk_iff placed (inside.length + 1)).2 admitted
  have tables := Premise.matched_of_ofItems matched
  have text_eq : vocabulary.readText lexicon text = (do
      let condition ← premise.condition
      let conclusion ← Conclusion.read vocabulary (inside.length + 2) after
      .ok ⟨condition, conclusion⟩) := by
    rw [readText, Lexicon.words_eq_ok_iff.2 ⟨words_eq, known⟩, Outcome.ok_bind,
      readWords_parts starts found, read, Outcome.ok_bind, matched, Outcome.ok_bind]
  obtain ⟨partners, _, rfl⟩ := Premise.ofItems_eq_ok_iff.1 matched
  have laid : Premise.Laid vocabulary 1 ⟨placed, partners, inside.length + 1⟩ :=
    Premise.laid_of_readItems built known_inside read
  have no_leader : Grammar.LedBy none [] := Grammar.leaderless_of_not_mem fun _ => List.not_mem_nil
  have here : (Premise.mk placed partners (inside.length + 1)).contents =
      [] ++ (placed.map (·.item) ++ []) := (List.append_nil _).symm
  have judged := Grammar.LooseSequence.judged built tables laid (Nat.lt_succ_self maxNesting)
    .nil no_leader here loose
  rw [List.length_map, List.length_nil, Nat.zero_add] at judged
  rw [text_eq]
  cases condition_eq : Premise.condition ⟨placed, partners, inside.length + 1⟩ with
  | error cause =>
      rw [Premise.condition] at condition_eq
      rw [condition_eq] at judged
      obtain ⟨before, mixed, rfl⟩ := judged
      refine .inr ⟨before, mixed, ?_⟩
      rw [Outcome.error_bind, List.nil_append, Nat.add_comm]
  | ok condition =>
      rw [Premise.condition] at condition_eq
      rw [condition_eq] at judged
      refine .inl ⟨judged.2, fun position fails => ?_⟩
      rw [Outcome.ok_bind, Outcome.bind_ok_eq_error_iff] at fails
      exact (Conclusion.read_besides_connectives _ _ _).of_error fails

/--
Let a rule text have registered tokens, with `if` in front and a premise whose operands any
connectives join, in brackets that nest within the limit.  Whatever stands behind `then`, reading
it fails for mixed connectives exactly if some connective differs from the first one of its level,
and it fails at the leftmost connective that does.
-/
theorem Vocabulary.mixing_located {vocabulary : Vocabulary} {lexicon : Lexicon}
    (built : vocabulary.lexicon = .ok lexicon) {text : String} {premise concluding : List String}
    {items : List Item}
    (tokens_eq : tokenize text =
      Keyword.ifWord.text :: (premise ++ Keyword.thenWord.text :: concluding))
    (registered : ∀ token ∈ concluding, ∃ lexeme, lexicon.find? token = some lexeme)
    (loose : Grammar.LooseSequence vocabulary maxNesting premise items) :
    ((∃ position, vocabulary.readText lexicon text = .error (.inconsistentOperator position)) ↔
      ∃ before connective after, premise = before ++ connective.keyword.text :: after ∧
        Grammar.Mixes before connective) ∧
    ∀ position, vocabulary.readText lexicon text = .error (.inconsistentOperator position) ↔
      ∃ before, Grammar.FirstMixed [] premise before ∧ position = before.length + 1 := by
  rcases readText_of_loose built tokens_eq registered loose with
    ⟨agrees, never⟩ | ⟨first, mixed, fails⟩
  · refine ⟨⟨?_, ?_⟩, fun position => ⟨fun fails => (never position fails).elim, ?_⟩⟩
    · rintro ⟨position, fails⟩
      exact (never position fails).elim
    · rintro ⟨before, connective, after, split, mixes⟩
      exact (agrees before connective after split mixes).elim
    · rintro ⟨before, mixed, _⟩
      exact (mixed.not_agreeing agrees).elim
  · refine ⟨⟨fun _ => ?_, fun _ => ⟨_, fails⟩⟩, fun position => ⟨fun same => ?_, ?_⟩⟩
    · obtain ⟨connective, after, split, mixes, _⟩ := mixed
      exact ⟨first, connective, after, split, mixes⟩
    · cases fails.symm.trans same
      exact ⟨first, mixed, rfl⟩
    · rintro ⟨before, mixed_before, rfl⟩
      rw [mixed_before.unique mixed]
      exact fails

/-- Connectives may differ between levels, and the conclusion is not looked at. -/
theorem RuleBase.tipping_mixes :
    ∃ lexicon, tipping.vocabulary.lexicon = .ok lexicon ∧
      tipping.vocabulary.readText lexicon
          "if food is bad and (food is bad or food is good) or food is good then tip" =
        .error (.inconsistentOperator 14) := by
  obtain ⟨lexicon, built⟩ := tipping_lexicon
  have tokens_eq : tokenize
      "if food is bad and (food is bad or food is good) or food is good then tip" =
      "if" :: (["food", "is", "bad", "and", "(", "food", "is", "bad", "or", "food", "is", "good",
        ")", "or", "food", "is", "good"] ++ "then" :: ["tip"]) := by
    decide +kernel
  have bad (limit : Nat) : Grammar.LooseOperand tipping.vocabulary limit ["food", "is", "bad"]
      [.leaf ⟨0, 0, false, none⟩] :=
    .leaf (@Grammar.Leaf.spelled _ 0 ⟨"food", ["bad", "good"]⟩ "bad" 0 false none rfl rfl)
  have good (limit : Nat) : Grammar.LooseOperand tipping.vocabulary limit ["food", "is", "good"]
      [.leaf ⟨0, 1, false, none⟩] :=
    .leaf (@Grammar.Leaf.spelled _ 0 ⟨"food", ["bad", "good"]⟩ "good" 1 false none rfl rfl)
  have inner : Grammar.LooseSequence tipping.vocabulary 63
      ["food", "is", "bad", "or", "food", "is", "good"] _ :=
    .more (bad 63) .or (.single (good 63))
  have loose : Grammar.LooseSequence tipping.vocabulary maxNesting ["food", "is", "bad", "and", "(",
      "food", "is", "bad", "or", "food", "is", "good", ")", "or", "food", "is", "good"] _ :=
    .more (bad 64) .and (.more (.bracketed inner) .or (.single (good 64)))
  have registered : ∀ token ∈ ["tip"], ∃ lexeme, lexicon.find? token = some lexeme :=
    List.forall_mem_singleton.2
      ⟨_, @Vocabulary.find?_name _ _ built (.output 0) ⟨"tip", ["low", "high"]⟩ rfl⟩
  have quiet_bad (connective : Connective) :
      connective.keyword.text ∉ ["food", "is", "bad"] := by
    cases connective <;> decide
  have quiet_good (connective : Connective) :
      connective.keyword.text ∉ ["food", "is", "good"] := by
    cases connective <;> decide
  have outer_level : Grammar.LedBy none ["food", "is", "bad"] :=
    Grammar.leaderless_of_not_mem quiet_bad
  have inner_level : Grammar.LedBy none
      (["food", "is", "bad", "and"] ++ ["("] ++ ["food", "is", "bad"]) :=
    Grammar.Leaderless.append (.opening _) (by decide) (Grammar.leaderless_of_not_mem quiet_bad)
  have not_and := mt (@Grammar.LedBy.mixes_iff _ .and _ outer_level).1 Bool.false_ne_true
  have not_or := mt (@Grammar.LedBy.mixes_iff _ .or _ inner_level).1 Bool.false_ne_true
  have agrees : Grammar.Agreeing [] (["food", "is", "bad"] ++ (["and"] ++ (["("] ++
      (["food", "is", "bad"] ++ (["or"] ++ (["food", "is", "good"] ++ [")"])))))) :=
    (Grammar.agreeing_of_not_mem quiet_bad).append <|
      (@Grammar.agreeing_connective _ .and not_and).append <|
      (Grammar.agreeing_bracket _ .opening).append <|
      (Grammar.agreeing_of_not_mem quiet_bad).append <|
      (@Grammar.agreeing_connective _ .or not_or).append <|
      (Grammar.agreeing_of_not_mem quiet_good).append (Grammar.agreeing_bracket _ .closing)
  have mixes : Grammar.Mixes ["food", "is", "bad", "and", "(", "food", "is", "bad", "or", "food",
      "is", "good", ")"] .or :=
    ⟨.and, ⟨["food", "is", "bad"], ⟨["(", "food", "is", "bad", "or", "food", "is", "good", ")"],
      rfl, by decide⟩, outer_level⟩, by decide⟩
  have located := (Vocabulary.mixing_located built tokens_eq registered loose).2 14
  exact ⟨lexicon, built, located.2 ⟨_, ⟨.or, ["food", "is", "good"], rfl, mixes, agrees⟩, rfl⟩⟩

end FuzzyControl
