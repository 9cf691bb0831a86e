import FuzzyControl.Proofs.Agreement
import FuzzyControl.Proofs.Balance
import FuzzyControl.Proofs.RuleText

/-!
# Reading is total

No check of the checked reading ever fails.  The table of bracket partners is the matching of
the brackets, all ranges of the descent are balanced, and each step down leads into a bracket
pair, so that as many steps are enough as brackets may be nested.
-/

namespace FuzzyControl

namespace Checked

variable {vocabulary : Vocabulary} {words : List Word}

/-! ## The table of partners -/

/-- The table of partners holds what the scan found, and its old entries elsewhere. -/
def Fills (closes filled : List Nat) (partners : List (Nat × Nat)) : Prop :=
  filled.length = closes.length ∧
    ∀ key < closes.length, filled[key]? = (partners.lookup key).or closes[key]?

/-- A new pair goes over the old entry, and no later pair goes over it. -/
theorem Fills.cons {closes filled : List Nat} {partners : List (Nat × Nat)} {opened close : Nat}
    (inside : opened < closes.length) (fills : Fills (closes.set opened close) filled partners)
    (fresh : partners.lookup opened = none) :
    Fills closes filled ((opened, close) :: partners) := by
  obtain ⟨length_eq, entries⟩ := fills
  rw [List.length_set] at length_eq entries
  refine ⟨length_eq, fun key less => ?_⟩
  rw [entries key less, List.lookup_cons]
  by_cases same : key = opened
  · rw [same, fresh, beq_self_eq_true, List.getElem?_set_self inside]
    rfl
  · rw [beq_false_of_ne same, List.getElem?_set_ne (Ne.symm same)]

theorem exceeded?_nesting (depth : Nat) :
    Bracket.exceeded? (some maxNesting) depth =
      if maxNesting < depth then some maxNesting else none := by
  rw [Bracket.exceeded?, Option.filter_some]
  by_cases beyond : maxNesting < depth
  · rw [if_pos beyond, if_pos (decide_eq_true beyond)]
  · rw [if_neg beyond, if_neg fun less => beyond (of_decide_eq_true less)]

/-- The brackets that wait for partners are different items in front of an index. -/
structure Waiting (items : List (Nat × Item)) (index : Nat) (pending : List Bracket.Pending) :
    Prop where
  below : ∀ bracket ∈ pending, bracket.index < index
  distinct : pending.Pairwise fun first second => second.index ≠ first.index
  standing : ∀ bracket ∈ pending, ∃ item, items[bracket.index]? = some (bracket.position, item)

namespace Waiting

variable {items : List (Nat × Item)} {index : Nat} {pending : List Bracket.Pending}

theorem skip (waiting : Waiting items index pending) : Waiting items (index + 1) pending :=
  ⟨fun bracket member => Nat.lt_succ_of_lt (waiting.below bracket member), waiting.distinct,
    waiting.standing⟩

theorem push (waiting : Waiting items index pending) {position : Nat} {item : Item}
    (here : items[index]? = some (position, item)) :
    Waiting items (index + 1) (⟨index, position⟩ :: pending) where
  below := List.forall_mem_cons.2 ⟨Nat.lt_succ_self index, waiting.skip.below⟩
  distinct := .cons (fun bracket member => Nat.ne_of_lt (waiting.below bracket member))
    waiting.distinct
  standing := List.forall_mem_cons.2 ⟨⟨item, here⟩, waiting.standing⟩

theorem pop {innermost : Bracket.Pending} (waiting : Waiting items index (innermost :: pending)) :
    Waiting items index pending where
  below := (List.forall_mem_cons.1 waiting.below).2
  distinct := (List.pairwise_cons.1 waiting.distinct).2
  standing := (List.forall_mem_cons.1 waiting.standing).2

end Waiting

/-- Both scans find the same pairs of brackets or the same fault. -/
theorem agrees_partners {items : List (Nat × Item)} {placed : List PlacedItem} {index : Nat}
    (remaining : items.drop index = placed.map place) {pending : List Bracket.Pending}
    (waiting : Waiting items index pending) {closes : List Nat}
    (length_eq : closes.length = items.length) :
    Agrees (Fills closes)
      (Builder.partners items (pending.map (·.index)) closes index (placed.map place))
      (Bracket.matchFrom (some maxNesting) index pending (placed.map (·.bracketEntry))) := by
  induction placed generalizing index pending closes with
  | nil =>
      cases pending with
      | nil => exact .done ⟨rfl, fun key less => by rw [List.lookup_nil, Option.none_or]⟩
      | cons innermost outer =>
          obtain ⟨item, here⟩ := waiting.standing innermost List.mem_cons_self
          simp only [List.map_nil, List.map_cons, Builder.partners, here, require, Outcome.ok_bind,
            Bracket.matchFrom]
          exact .refused trivial
  | cons first rest ih =>
      obtain ⟨position, token, item⟩ := first
      have here : items[index]? = some (position, item) := by
        rw [← List.head?_drop, remaining]
        rfl
      have later : items.drop (index + 1) = rest.map place := by
        rw [← List.drop_drop, remaining]
        rfl
      cases item with
      | leaf _ | connective _ => exact ih later waiting.skip length_eq
      | bracket own =>
          cases own with
          | opening =>
              simp only [List.map_cons, place, PlacedItem.bracketEntry, Builder.partners,
                Bracket.matchFrom, exceeded?_nesting, List.length_map]
              by_cases deep : maxNesting < pending.length + 1
              · rw [if_pos deep, if_pos deep]
                exact .refused trivial
              · rw [if_neg deep, if_neg deep]
                exact ih later (waiting.push here) length_eq
          | closing =>
              cases pending with
              | nil => exact .refused trivial
              | cons innermost outer =>
                  obtain ⟨_, standing⟩ := waiting.standing innermost List.mem_cons_self
                  have inside : innermost.index < closes.length := by
                    rw [length_eq]
                    exact (List.getElem?_eq_some_iff.1 standing).1
                  have length_set : (closes.set innermost.index index).length = items.length :=
                    List.length_set.trans length_eq
                  have fresh {partners : List (Nat × Nat)}
                      (scanned : Bracket.matchFrom (some maxNesting) (index + 1) outer
                        (rest.map (·.bracketEntry)) = .ok partners) :
                      partners.lookup innermost.index = none := by
                    have described := Bracket.describes_of_matchFrom scanned
                      waiting.pop.skip.below waiting.pop.distinct
                    exact described.unrelated (waiting.skip.below innermost List.mem_cons_self)
                      (List.pairwise_cons.1 waiting.distinct).1
                  change Agrees (Fills closes)
                    (if innermost.index < closes.length then
                      Builder.partners items (outer.map (·.index))
                        (closes.set innermost.index index) (index + 1) (rest.map place)
                    else .error (.breach .partnerOutOfRange))
                    ((Bracket.matchFrom (some maxNesting) (index + 1) outer
                      (rest.map (·.bracketEntry))).map ((innermost.index, index) :: ·))
                  rw [if_pos inside]
                  exact (ih later waiting.pop.skip length_set).map_right
                    fun _ partners scanned fills => fills.cons inside (fresh scanned)

/-! ## Building -/

/-- The tables are those of a premise over some words. -/
structure Represents (words : List Word) (builder : Builder) (premise : Premise) : Prop where
  table : builder.table = .ofWords words
  items : SameItems words builder.items premise.items
  closes : ∀ {index close}, premise.partner? index = some close →
    builder.closes[index]? = some close
  stop : builder.stop = premise.stop
  matched : premise.Matched

namespace Represents

variable {builder : Builder} {premise : Premise} {index : Nat}

theorem item (represents : Represents words builder premise) {placed : PlacedItem}
    (here : premise.items[index]? = some placed) : builder.item index = .ok placed.item := by
  rw [Builder.item, represents.items.1, List.getElem?_map, here]
  rfl

theorem position (represents : Represents words builder premise) (index : Nat) :
    builder.position index = premise.positionOf index := by
  rw [Builder.position, Premise.positionOf, represents.items.1, List.getElem?_map,
    represents.stop]
  cases premise.items[index]? <;> rfl

theorem unexpected {α : Type} (represents : Represents words builder premise)
    {placed : PlacedItem} (here : premise.items[index]? = some placed) :
    builder.table.unexpected (α := α) (builder.position index) =
      .error (.refused (.unexpectedToken placed.token placed.position)) := by
  obtain ⟨word, word_here, same⟩ := represents.items.2 placed (List.mem_of_getElem? here)
  have position_eq : builder.position index = placed.position := by
    rw [represents.position, Premise.positionOf, here]
  rw [represents.table, position_eq, unexpected_ofWords word_here, same]

theorem close (represents : Represents words builder premise) {close : Nat}
    (partner : premise.partner? index = some close) : builder.close index = .ok close := by
  rw [Builder.close, represents.closes partner]
  rfl

end Represents

section Building

variable {builder : Builder} {premise : Premise} {limit start stop : Nat} {items : List Item}

/-- Both readings leave out the same brackets, and what is left is balanced. -/
theorem strip_eq (represents : Represents words builder premise) {start stop : Nat}
    {items : List Item} (range : premise.Range limit start stop items) :
    ∃ first last inner, builder.strip start stop = .ok (first, last) ∧
      premise.strip start stop = (first, last) ∧ premise.Range limit first last inner ∧
      ¬(first < last ∧ premise.partner? first = some (last - 1)) := by
  have stays (checked : builder.strip start stop = .ok (start, stop))
      (ended : ¬(start < stop ∧ premise.partner? start = some (stop - 1))) :
      ∃ first last inner, builder.strip start stop = .ok (first, last) ∧
        premise.strip start stop = (first, last) ∧ premise.Range limit first last inner ∧
        ¬(first < last ∧ premise.partner? first = some (last - 1)) :=
    ⟨start, stop, items, checked, by rw [Premise.strip, if_neg ended], range, ended⟩
  by_cases less : start < stop
  case neg => exact stays (by rw [Builder.strip, if_neg less]) fun both => less both.1
  obtain ⟨item, rest, rfl⟩ := range.cons less
  obtain ⟨_, placed, here, item_eq⟩ := range.head
  have found := represents.item here
  rw [item_eq] at found
  cases item with
  | leaf _ | connective _ =>
      have open_ := range.partner?_eq_none represents.matched rfl
      refine stays (by rw [Builder.strip, if_pos less, found]) fun both => ?_
      rw [open_] at both
      cases both.2
  | bracket own =>
      cases own with
      | closing => exact (Premise.Range.not_closing range).elim
      | opening =>
          obtain ⟨inner, _, close, partner, after, inside, _, inner_range, _⟩ :=
            range.bracketed represents.matched
          have difference := subtract_of_le (by omega : 1 ≤ stop)
          by_cases whole : close = stop - 1
          · subst whole
            obtain ⟨first, last, left, strip_checked, strip_plain, left_range, ended⟩ :=
              strip_eq represents (inner_range.mono (Nat.sub_le _ _))
            refine ⟨first, last, left, ?_, ?_, left_range, ended⟩
            · rw [Builder.strip, if_pos less, found]
              simp only [represents.close partner, difference, if_true, strip_checked]
            · rw [Premise.strip, if_pos ⟨less, partner⟩, strip_plain]
          · refine stays ?_ fun both => whole (Option.some.inj (partner.symm.trans both.2))
            rw [Builder.strip, if_pos less, found]
            simp only [represents.close partner, difference, if_neg whole]
termination_by stop - start

def InnerAgrees (premise : Premise) (limit : Nat) (inner : Nat → Nat → Except Halt Condition)
    (other : Nat → Nat → Except LanguageError Condition) : Prop :=
  ∀ {smaller start stop items}, smaller < limit → premise.Range smaller start stop items →
    Agrees Eq (inner start stop) (other start stop)

variable {inner : Nat → Nat → Except Halt Condition}
  {other : Nat → Nat → Except LanguageError Condition} {first index : Nat}

/-- An operand leads on in its range, and fills it only as a lone leaf or in brackets. -/
structure SameOperand (premise : Premise) (limit stop index : Nat)
    (result expected : Condition × Nat) : Prop where
  eq : result = expected
  advances : index < expected.2
  rest : ∃ rest, premise.Range limit expected.2 stop rest
  alone : stop ≤ expected.2 →
    (premise.loneLeaf? index stop).isSome ∨ premise.partner? index = some (stop - 1)

theorem agrees_operand (represents : Represents words builder premise)
    (agrees : InnerAgrees premise limit inner other) (le : first ≤ index)
    (range : premise.Range limit index stop items) (less : index < stop) :
    Agrees (SameOperand premise limit stop index) (builder.operand inner first stop index)
      (premise.operand other stop index) := by
  obtain ⟨item, rest, rfl⟩ := range.cons less
  obtain ⟨_, placed, here, rfl⟩ := range.head
  have refused := represents.unexpected (α := Condition × Nat) here
  obtain ⟨position, token, item⟩ := placed
  rw [Builder.operand, represents.item here, Outcome.ok_bind, Premise.operand, here]
  cases item with
  | leaf proposition =>
      refine .done ⟨rfl, Nat.lt_succ_self _, ⟨_, range.tail rfl⟩, fun filled => .inl ?_⟩
      have lone : stop - index = 1 := by
        change stop ≤ index + 1 at filled
        omega
      rw [Premise.loneLeaf?, lone, here]
      rfl
  | connective _ =>
      simp only [refused]
      exact .refused trivial
  | bracket own =>
      cases own with
      | closing => exact (Premise.Range.not_closing range).elim
      | opening =>
          obtain ⟨_, later, close, partner, after, inside, nests, inner_range, later_range⟩ :=
            range.bracketed represents.matched
          have fits : first < index + 1 ∧ index + 1 ≤ close ∧ close < stop :=
            ⟨Nat.lt_succ_of_le le, after, inside⟩
          simp only [represents.close partner, partner, Outcome.ok_bind, if_pos fits]
          rw [if_pos (⟨after, inside⟩ : index < close ∧ close < stop)]
          refine (agrees (Nat.sub_lt nests Nat.one_pos) inner_range).map fun condition _ same =>
            ⟨by rw [same], Nat.lt_succ_of_lt after, ⟨later, later_range⟩, fun filled => .inr ?_⟩
          have last : close = stop - 1 := by
            change stop ≤ close + 1 at filled
            omega
          rw [partner, last]

/-- A chain without a connective is a lone leaf or stands in brackets. -/
def SameChain (premise : Premise) (stop index : Nat) (sofar : Option Connective)
    (result expected : List Condition × Option Connective) : Prop :=
  result = expected ∧ (expected.2 = none → sofar = none ∧
    ((premise.loneLeaf? index stop).isSome ∨ premise.partner? index = some (stop - 1)))

theorem agrees_chain (represents : Represents words builder premise)
    (agrees : InnerAgrees premise limit inner other) {index : Nat} {items : List Item}
    (le : first ≤ index) (range : premise.Range limit index stop items) (less : index < stop)
    (sofar : Option Connective) :
    Agrees (SameChain premise stop index sofar) (builder.chain inner first stop sofar index)
      (premise.chain other stop sofar index) := by
  have operand := agrees_operand represents agrees le range less
  rw [Builder.chain, Premise.chain]
  generalize builder.operand inner first stop index = checked,
    premise.operand other stop index = plain at operand
  cases operand with
  | refused fault => exact .refused fault
  | @done _ result same =>
      obtain ⟨child, next⟩ := result
      obtain ⟨rfl, advances, ⟨rest, rest_range⟩, alone⟩ := same
      dsimp only
      by_cases filled : stop ≤ next
      case pos =>
        rw [if_pos filled, if_pos filled]
        exact .done ⟨rfl, fun none_eq => ⟨none_eq, alone filled⟩⟩
      obtain ⟨item, more, rfl⟩ := rest_range.cons (Nat.lt_of_not_le filled)
      obtain ⟨_, placed, here, rfl⟩ := rest_range.head
      have refused := represents.unexpected (α := List Condition × Option Connective) here
      have position_eq : builder.position next = placed.position := by
        rw [represents.position, Premise.positionOf, here]
      rw [if_neg filled, if_neg filled, represents.item here, here]
      obtain ⟨position, token, item⟩ := placed
      cases item with
      | leaf _ | bracket _ =>
          simp only [refused]
          exact .refused trivial
      | connective own =>
          simp only [represents.position (next + 1), position_eq]
          by_cases differs : sofar.any (· != own) = true
          case pos =>
            rw [if_pos differs, if_pos differs]
            exact .refused trivial
          by_cases ended : stop ≤ next + 1
          case pos =>
            rw [if_neg differs, if_neg differs, if_pos ended, if_pos ended]
            exact .refused trivial
          have later := agrees_chain represents agrees
            (Nat.le_trans le (Nat.le_of_lt (Nat.lt_succ_of_lt advances)))
            (rest_range.tail rfl) (Nat.lt_of_not_le ended) (some own)
          rw [if_neg differs, if_neg differs, if_neg ended, if_neg ended, if_pos advances,
            dif_pos (Nat.lt_succ_of_lt advances)]
          generalize builder.chain inner first stop (some own) (next + 1) = checked,
            premise.chain other stop (some own) (next + 1) = plain at later
          cases later with
          | refused fault => exact .refused fault
          | done same =>
              obtain ⟨rfl, joined⟩ := same
              exact .done ⟨rfl, fun none_eq => by cases (joined none_eq).1⟩
termination_by stop - index

theorem loneLeaf?_eq (represents : Represents words builder premise)
    (range : premise.Range limit start stop items) (less : start < stop) :
    builder.loneLeaf? start stop = .ok (premise.loneLeaf? start stop) := by
  obtain ⟨item, rest, rfl⟩ := range.cons less
  obtain ⟨_, ⟨position, token, item⟩, here, rfl⟩ := range.head
  rw [Builder.loneLeaf?, subtract_of_le (Nat.le_of_lt less), Outcome.ok_bind,
    represents.item here, Outcome.ok_bind, Premise.loneLeaf?, here]
  generalize stop - start = length
  match length, item with
  | 0, _ | _ + 2, _ | 1, .leaf _ | 1, .bracket _ | 1, .connective _ => rfl

/-- As many steps down are enough as brackets are nested. -/
theorem agrees_build (represents : Represents words builder premise) {budget : Nat}
    (enough : limit < budget) (range : premise.Range limit start stop items) :
    Agrees Eq (builder.build budget start stop) (premise.build budget start stop) := by
  induction budget generalizing limit start stop items with
  | zero => cases enough
  | succ budget ih =>
      obtain ⟨first, last, left, strip_checked, strip_plain, left_range, ended⟩ :=
        strip_eq represents range
      have inner_agrees : InnerAgrees premise limit (builder.build budget) (premise.build budget) :=
        fun smaller => ih (Nat.lt_of_lt_of_le smaller (Nat.le_of_lt_succ enough))
      rw [Builder.build, Premise.build, strip_checked, strip_plain, Outcome.ok_bind]
      dsimp only
      by_cases empty : last ≤ first
      · rw [if_pos empty, if_pos empty, represents.position]
        exact .refused trivial
      · have less := Nat.lt_of_not_le empty
        have chain := agrees_chain represents inner_agrees (Nat.le_refl _) left_range less none
        rw [if_neg empty, if_neg empty, loneLeaf?_eq represents left_range less, Outcome.ok_bind]
        cases lone : premise.loneLeaf? first last with
        | some proposition => exact .done rfl
        | none =>
            dsimp only
            generalize builder.chain (builder.build budget) first last none first = checked,
              premise.chain (premise.build budget) last none first = plain at chain
            cases chain with
            | refused fault => exact .refused fault
            | @done _ pair same =>
                obtain ⟨children, connective⟩ := pair
                obtain ⟨rfl, joined⟩ := same
                cases connective with
                | some own => exact .done rfl
                | none =>
                    rcases (joined rfl).2 with alone | enclosed
                    · rw [lone] at alone
                      cases alone
                    · exact absurd ⟨less, enclosed⟩ ended

end Building

theorem partner?_lt {premise : Premise} (matched : premise.Matched) {index close : Nat}
    (partner : premise.partner? index = some close) : index < premise.items.length := by
  rw [matched] at partner
  have inside := (List.getElem?_eq_some_iff.1 (Bracket.partner?_spec partner).1).1
  rwa [bracketShape, List.length_map, Premise.contents, List.length_map] at inside

/-- The table is filled with the partners of the premise, or the premise is refused as well. -/
theorem agrees_closes (placed : List PlacedItem) (stop : Nat) :
    Agrees (fun closes premise => Premise.ofItems placed stop = .ok premise ∧
        ∀ index close, premise.partner? index = some close → closes[index]? = some close)
      (Builder.partners (placed.map place) [] (List.replicate placed.length 0) 0
        (placed.map place))
      (Premise.ofItems placed stop) := by
  have waiting : Waiting (placed.map place) 0 [] :=
    ⟨List.forall_mem_nil _, .nil, List.forall_mem_nil _⟩
  have length_eq : (List.replicate placed.length 0).length = (placed.map place).length := by
    rw [List.length_replicate, List.length_map]
  have scan := agrees_partners List.drop_zero waiting length_eq
  rw [List.map_nil] at scan
  cases matched : Premise.ofItems placed stop with
  | error cause =>
      obtain ⟨refuses, fault⟩ := scan.of_error (Outcome.bind_ok_eq_error_iff.1 matched)
      rw [refuses]
      exact .refused fault
  | ok premise =>
      have matching := Premise.matched_of_ofItems matched
      obtain ⟨partners, found, rfl⟩ := Premise.ofItems_eq_ok_iff.1 matched
      obtain ⟨closes, filled, _, entries⟩ := scan.of_ok found
      rw [filled]
      refine .done ⟨rfl, fun index close partner => ?_⟩
      have inside : index < (List.replicate placed.length 0).length := by
        rw [List.length_replicate]
        exact partner?_lt matching partner
      rw [entries index inside]
      exact congrArg (Option.or · _) partner

/-- The condition of a premise is built without a failing check. -/
theorem agrees_condition {items : List (Nat × Item)} {placed : List PlacedItem}
    (same : SameItems words items placed) (stop : Nat) :
    Agrees Eq (condition (.ofWords words) items stop)
      (Premise.ofItems placed stop >>= fun premise => premise.condition) := by
  obtain ⟨rfl, standing⟩ := same
  unfold condition
  rw [List.length_map]
  refine (agrees_closes placed stop).bind fun closes premise both => ?_
  obtain ⟨matched, closed⟩ := both
  have matching := Premise.matched_of_ofItems matched
  have range := Premise.range_of_ofItems matched
  obtain ⟨partners, _, rfl⟩ := Premise.ofItems_eq_ok_iff.1 matched
  have represents : Represents words ⟨.ofWords words, placed.map place, closes, stop⟩
      ⟨placed, partners, stop⟩ := ⟨rfl, ⟨rfl, standing⟩, closed _ _, rfl, matching⟩
  exact agrees_build represents (Nat.lt_succ_self _) range

/-! ## Whole texts -/

theorem agrees_statement (declared : Declared vocabulary words) :
    Agrees Eq (statement vocabulary (.ofWords words)) (vocabulary.readWords words) := by
  have starts : (Table.ofWords words).lexemes.head? = some (.keyword .ifWord) ↔
      words.head?.any (·.isKeyword .ifWord) = true := by
    rw [Table.ofWords, List.head?_map]
    cases words.head? with
    | none => simp
    | some word => simp [Word.isKeyword]
  have turns : (Table.ofWords words).lexemes.findIdx? (· == .keyword .thenWord) =
      Vocabulary.thenPosition? words := List.findIdx?_map
  have length_eq : (Table.ofWords words).tokens.length = words.length := List.length_map _
  unfold statement Vocabulary.readWords
  rw [turns]
  by_cases started : words.head?.any (·.isKeyword .ifWord) = true
  · rw [if_pos (starts.2 started), started]
    cases found : Vocabulary.thenPosition? words with
    | none =>
        simp only [length_eq]
        exact .refused trivial
    | some stop =>
        obtain ⟨before, turn, after, words_eq, rfl, _⟩ :=
          Vocabulary.thenPosition?_eq_some_iff.1 found
        have less : before.length + 1 ≤ words.length := by
          rw [words_eq, List.length_append, List.length_cons]
          omega
        refine (agrees_items (Nat.le_of_lt less) declared rfl).bind fun items placed same => ?_
        rw [← bind_assoc]
        refine (agrees_condition same before.length).bind fun condition _ same_condition => ?_
        rw [length_eq]
        refine (agrees_conclusion less declared).bind fun conclusion _ same_conclusion => ?_
        exact .done (by rw [same_condition, same_conclusion])
  · rw [if_neg fun same => started (starts.1 same), Bool.eq_false_iff.2 started]
    exact .refused trivial

theorem agrees_lexemes (lexicon : Lexicon) (tokens : List String) :
    Agrees (fun lexemes words => Table.mk tokens lexemes = .ofWords words)
      (lexemes lexicon tokens) (lexicon.words tokens) := by
  induction tokens with
  | nil => exact .done rfl
  | cons token rest ih =>
      unfold lexemes Lexicon.words
      cases lexicon.find? token with
      | none => exact .refused trivial
      | some lexeme =>
          refine ih.map fun lexemes words same => ?_
          simp only [Table.ofWords, Table.mk.injEq] at same ⊢
          rw [same.1, same.2]
          exact ⟨rfl, rfl⟩

/-- On every text the checked reading agrees with the plain one. -/
theorem agrees_readText {lexicon : Lexicon} (built : vocabulary.lexicon = .ok lexicon)
    (text : String) :
    Agrees Eq (readText vocabulary lexicon text) (vocabulary.readText lexicon text) := by
  unfold readText Vocabulary.readText
  cases found : lexicon.words (tokenize text) with
  | error cause =>
      obtain ⟨refuses, fault⟩ := (agrees_lexemes lexicon _).of_error found
      rw [refuses]
      exact .refused fault
  | ok words =>
      obtain ⟨lexemes, succeeds, table_eq⟩ := (agrees_lexemes lexicon _).of_ok found
      have known := (Lexicon.words_eq_ok_iff.1 found).2
      rw [succeeds, Outcome.ok_bind, Outcome.ok_bind, table_eq]
      exact agrees_statement (declared_of_lexicon built known)

end Checked

/--
Once there is a lexicon, every variable that a token means is declared, and no text whatsoever
makes a check of the checked reading fail: it comes out as the plain reading does, which in turn
never meets a defect.
-/
theorem Vocabulary.reading_breaches_nothing {vocabulary : Vocabulary} {lexicon : Lexicon}
    (built : vocabulary.lexicon = .ok lexicon) :
    (∀ token (owner : Owner), lexicon.find? token = some owner.lexeme →
      ∃ signature, vocabulary.signature? owner = some signature) ∧
    ∀ text,
      (∀ breach, Checked.readText vocabulary lexicon text ≠ .error (.breach breach)) ∧
      Checked.readText vocabulary lexicon text =
        (vocabulary.readText lexicon text).mapError .refused ∧
      ∀ site, vocabulary.readText lexicon text ≠ .error (.defect site) := by
  constructor
  · intro token owner meaning
    obtain ⟨signature, declared, _⟩ := (Vocabulary.find?_eq_owner_iff built).1 meaning
    exact ⟨signature, declared⟩
  · intro text
    have agrees := Checked.agrees_readText built text
    exact ⟨agrees.unbreached, agrees.outcome⟩

theorem RuleBase.tipping_unbreached :
    ∃ lexicon, tipping.vocabulary.lexicon = .ok lexicon ∧
      Checked.readText tipping.vocabulary lexicon
          "if food is bad or (food is not very good) then (tip is low)" =
        .ok ⟨.group .or false [.leaf ⟨0, 0, false, none⟩, .leaf ⟨0, 1, true, some .very⟩],
          ⟨0, 0, false⟩⟩ := by
  obtain ⟨lexicon, built⟩ := tipping_lexicon
  have same := ((Vocabulary.reading_breaches_nothing built).2
    "if food is bad or (food is not very good) then (tip is low)").2.1
  rw [(Vocabulary.readText_eq_ok_iff built).2 tipping_spells] at same
  exact ⟨lexicon, built, same⟩

end FuzzyControl
