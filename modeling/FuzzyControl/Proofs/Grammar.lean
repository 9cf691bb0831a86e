import FuzzyControl.Proofs.Premise
import FuzzyControl.Proofs.Tree

/-!
# Derivations on tokens and on items

The grammar of rules speaks of tokens and the one of trees of items.  The two agree
through the cutting of tokens into items, and the nesting of brackets is the same on
both sides.
-/

namespace FuzzyControl

def Keyword.isLeafWord : Keyword → Bool
  | .isWord | .notWord | .adverb _ => true
  | _ => false

namespace Grammar

/-- At most `limit` brackets are open at once if `depth` of them are open before. -/
def NestedFrom (depth : Int) (limit : Nat) (tokens : List String) : Prop :=
  ∀ before, before <+: tokens → depth + openAfter before ≤ limit

theorem nestedFrom_zero_iff {limit : Nat} {tokens : List String} :
    NestedFrom 0 limit tokens ↔ NestedWithin limit tokens := by
  simp only [NestedFrom, NestedWithin, Int.zero_add]

theorem openAfter_append (first second : List String) :
    openAfter (first ++ second) = openAfter first + openAfter second := by
  simp only [openAfter, List.count_append]
  omega

theorem openAfter_cons (token : String) (rest : List String) :
    openAfter (token :: rest) = openAfter [token] + openAfter rest :=
  openAfter_append [token] rest

theorem NestedFrom.depth_le {depth : Int} {limit : Nat} {tokens : List String}
    (nested : NestedFrom depth limit tokens) : depth ≤ limit := by
  have bound := nested [] (List.nil_prefix)
  simpa [openAfter] using bound

theorem nestedFrom_nil_iff {depth : Int} {limit : Nat} :
    NestedFrom depth limit [] ↔ depth ≤ limit := by
  refine ⟨NestedFrom.depth_le, fun le before initial => ?_⟩
  rw [List.prefix_nil.1 initial]
  simpa [openAfter] using le

theorem nestedFrom_cons_iff {depth : Int} {limit : Nat} {token : String} {rest : List String} :
    NestedFrom depth limit (token :: rest) ↔
      depth ≤ limit ∧ NestedFrom (depth + openAfter [token]) limit rest := by
  constructor
  · intro nested
    refine ⟨nested.depth_le, fun before initial => ?_⟩
    have bound := nested (token :: before) (List.cons_prefix_cons.2 ⟨rfl, initial⟩)
    rw [openAfter_cons] at bound
    omega
  · rintro ⟨le, nested⟩ before initial
    rcases List.prefix_cons_iff.1 initial with rfl | ⟨inner, rfl, inner_initial⟩
    · simpa [openAfter] using le
    · have bound := nested inner inner_initial
      rw [openAfter_cons]
      omega

theorem nestedFrom_append_iff {depth : Int} {limit : Nat} {first second : List String} :
    NestedFrom depth limit (first ++ second) ↔
      NestedFrom depth limit first ∧ NestedFrom (depth + openAfter first) limit second := by
  induction first generalizing depth with
  | nil =>
      have zero : depth + openAfter [] = depth := Int.add_zero depth
      rw [List.nil_append, zero, nestedFrom_nil_iff]
      exact ⟨fun nested => ⟨nested.depth_le, nested⟩, And.right⟩
  | cons token rest ih =>
      rw [List.cons_append, nestedFrom_cons_iff, nestedFrom_cons_iff, ih, and_assoc,
        openAfter_cons token rest, Int.add_assoc]

theorem nestedFrom_succ_iff {depth : Int} {limit : Nat} {tokens : List String} :
    NestedFrom (depth + 1) (limit + 1) tokens ↔ NestedFrom depth limit tokens := by
  unfold NestedFrom
  refine forall_congr' fun before => imp_congr_right fun _ => ?_
  omega

/-- Tokens without brackets open none. -/
theorem openAfter_of_not_bracket {tokens : List String}
    (plain : ∀ token ∈ tokens, token ≠ Keyword.openBracket.text ∧ token ≠ Keyword.closeBracket.text) :
    openAfter tokens = 0 := by
  unfold openAfter
  rw [List.count_eq_zero_of_not_mem fun member => (plain _ member).1 rfl,
    List.count_eq_zero_of_not_mem fun member => (plain _ member).2 rfl]
  rfl

theorem nestedFrom_of_not_bracket {depth : Int} {limit : Nat} {tokens : List String}
    (plain : ∀ token ∈ tokens, token ≠ Keyword.openBracket.text ∧ token ≠ Keyword.closeBracket.text)
    (le : depth ≤ limit) : NestedFrom depth limit tokens := by
  intro before initial
  rw [openAfter_of_not_bracket fun token member => plain token (initial.subset member)]
  omega

section Vocabulary

variable {vocabulary : Vocabulary} {lexicon : Lexicon}

/-- A token of a leaf is a keyword, the name of the input or the name of the term. -/
theorem Leaf.mem_cases {tokens : List String} {proposition : Proposition}
    (spelled : Leaf vocabulary tokens proposition) {token : String} (member : token ∈ tokens) :
    (∃ keyword : Keyword, keyword.isLeafWord = true ∧ token = keyword.text) ∨
      ∃ signature, vocabulary.inputs[proposition.input]? = some signature ∧
        (token = signature.name ∨ signature.indexOf? token = some proposition.term) := by
  obtain ⟨negated, hedge, declared, named⟩ := spelled
  simp only [List.mem_cons, List.mem_append, List.not_mem_nil, or_false] at member
  rcases member with rfl | rfl | (negation | adverb) | rfl
  · exact .inr ⟨_, declared, .inl rfl⟩
  · exact .inl ⟨.isWord, rfl, rfl⟩
  · cases negated with
    | false => cases negation
    | true => exact .inl ⟨.notWord, rfl, List.mem_singleton.1 negation⟩
  · obtain ⟨own, _, rfl⟩ := List.mem_map.1 adverb
    exact .inl ⟨.adverb own, rfl, rfl⟩
  · exact .inr ⟨_, declared, .inr named⟩

/-- No other keyword occurs in a leaf. -/
theorem Leaf.keyword_not_mem (built : vocabulary.lexicon = .ok lexicon) {tokens : List String}
    {proposition : Proposition} (spelled : Leaf vocabulary tokens proposition)
    {keyword : Keyword} (outer : keyword.isLeafWord = false) : keyword.text ∉ tokens := by
  intro member
  rcases spelled.mem_cases member with ⟨own, inner, same⟩ | ⟨signature, declared, name | value⟩
  · rw [Keyword.text_injective same, inner] at outer
    cases outer
  · have owned : vocabulary.signature? (.input proposition.input) = some signature := declared
    exact Vocabulary.name_ne_keyword built owned keyword name.symm
  · have owned : vocabulary.signature? (.input proposition.input) = some signature := declared
    exact Vocabulary.value_ne_keyword built owned value keyword rfl

theorem Leaf.not_bracket (built : vocabulary.lexicon = .ok lexicon) {tokens : List String}
    {proposition : Proposition} (spelled : Leaf vocabulary tokens proposition) :
    ∀ token ∈ tokens, token ≠ Keyword.openBracket.text ∧ token ≠ Keyword.closeBracket.text := by
  intro token member
  constructor
  · rintro rfl
    exact spelled.keyword_not_mem built rfl member
  · rintro rfl
    exact spelled.keyword_not_mem built rfl member

theorem openAfter_opening : openAfter [Keyword.openBracket.text] = 1 := by
  decide

theorem openAfter_closing : openAfter [Keyword.closeBracket.text] = -1 := by
  decide

theorem openAfter_connective (connective : Connective) :
    openAfter [connective.keyword.text] = 0 := by
  cases connective <;> decide

theorem openAfter_bracketed (tokens : List String) :
    openAfter (Keyword.openBracket.text :: (tokens ++ [Keyword.closeBracket.text])) =
      openAfter tokens := by
  rw [openAfter_cons, openAfter_append, openAfter_opening, openAfter_closing]
  omega

theorem openAfter_join (first rest : List String) (connective : Connective) :
    openAfter (first ++ connective.keyword.text :: rest) = openAfter first + openAfter rest := by
  rw [openAfter_append, openAfter_cons, openAfter_connective, Int.zero_add]

theorem nestedFrom_join_iff {depth : Int} {limit : Nat} {first rest : List String}
    {connective : Connective} (closed : openAfter first = 0) :
    NestedFrom depth limit (first ++ connective.keyword.text :: rest) ↔
      NestedFrom depth limit first ∧ NestedFrom depth limit rest := by
  rw [nestedFrom_append_iff, nestedFrom_cons_iff, openAfter_connective, closed, Int.add_zero,
    Int.add_zero]
  exact ⟨fun both => ⟨both.1, both.2.2⟩, fun both => ⟨both.1, both.1.depth_le, both.2⟩⟩

/-- A bracketed range nests one level deeper than what it encloses. -/
theorem nested_of_bracketed {limit : Nat} {tokens : List String}
    (nested : NestedFrom 0 limit
      (Keyword.openBracket.text :: (tokens ++ [Keyword.closeBracket.text]))) :
    ∃ inner, limit = inner + 1 ∧ NestedFrom 0 inner tokens := by
  rw [nestedFrom_cons_iff, openAfter_opening, nestedFrom_append_iff] at nested
  have bound := nested.2.1.depth_le
  obtain ⟨inner, rfl⟩ : ∃ inner, limit = inner + 1 := ⟨limit - 1, by omega⟩
  exact ⟨inner, rfl, nestedFrom_succ_iff.1 nested.2.1⟩

theorem nestedFrom_bracketed {limit : Nat} {tokens : List String} (closed : openAfter tokens = 0)
    (nested : NestedFrom 0 limit tokens) :
    NestedFrom 0 (limit + 1)
      (Keyword.openBracket.text :: (tokens ++ [Keyword.closeBracket.text])) := by
  rw [nestedFrom_cons_iff, openAfter_opening, nestedFrom_append_iff, closed, nestedFrom_cons_iff,
    openAfter_closing]
  exact ⟨by omega, nestedFrom_succ_iff.2 nested, by omega, nestedFrom_nil_iff.2 (by omega)⟩

mutual

theorem Operand.openAfter_eq (built : vocabulary.lexicon = .ok lexicon) {tokens : List String}
    {condition : Condition} : Operand vocabulary tokens condition → openAfter tokens = 0
  | .leaf spelled => openAfter_of_not_bracket (spelled.not_bracket built)
  | .bracketed inner => (openAfter_bracketed _).trans (Whole.openAfter_eq built inner)

theorem Whole.openAfter_eq (built : vocabulary.lexicon = .ok lexicon) {tokens : List String}
    {condition : Condition} : Whole vocabulary tokens condition → openAfter tokens = 0
  | .operand single => Operand.openAfter_eq built single
  | .chain head tail => by
      rw [openAfter_join, Operand.openAfter_eq built head, Chain.openAfter_eq built tail]
      rfl

theorem Chain.openAfter_eq (built : vocabulary.lexicon = .ok lexicon) {connective : Connective}
    {tokens : List String} {children : List Condition} :
    Chain vocabulary connective tokens children → openAfter tokens = 0
  | .last single => Operand.openAfter_eq built single
  | .more head tail => by
      rw [openAfter_join, Operand.openAfter_eq built head, Chain.openAfter_eq built tail]
      rfl

end

mutual

/-- Tokens of an operand can be cut into items of the same operand. -/
theorem Operand.itemized (built : vocabulary.lexicon = .ok lexicon) {limit : Nat}
    {tokens : List String} {condition : Condition} (nested : NestedFrom 0 limit tokens) :
    Operand vocabulary tokens condition →
    ∃ items, Itemized vocabulary tokens items ∧ Tree.Operand limit items condition
  | @Operand.leaf _ tokens proposition spelled => by
      have cut : Itemized vocabulary (tokens ++ []) [.leaf proposition] := .leaf spelled .nil
      rw [List.append_nil] at cut
      exact ⟨_, cut, .leaf proposition⟩
  | .bracketed inner => by
      obtain ⟨innerLimit, rfl, nestedInner⟩ := nested_of_bracketed nested
      obtain ⟨items, cut, derived⟩ := Whole.itemized built nestedInner inner
      exact ⟨_, .bracket .opening (cut.append (.bracket .closing .nil)), .bracketed derived⟩

theorem Whole.itemized (built : vocabulary.lexicon = .ok lexicon) {limit : Nat}
    {tokens : List String} {condition : Condition} (nested : NestedFrom 0 limit tokens) :
    Whole vocabulary tokens condition →
    ∃ items, Itemized vocabulary tokens items ∧ Tree.Whole limit items condition
  | .operand single => by
      obtain ⟨items, cut, derived⟩ := Operand.itemized built nested single
      exact ⟨items, cut, .operand derived⟩
  | .chain head tail => by
      obtain ⟨nestedHead, nestedTail⟩ :=
        (nestedFrom_join_iff (Operand.openAfter_eq built head)).1 nested
      obtain ⟨first, cutFirst, derivedFirst⟩ := Operand.itemized built nestedHead head
      obtain ⟨rest, cutRest, derivedRest⟩ := Chain.itemized built nestedTail tail
      exact ⟨_, cutFirst.append (.connective _ cutRest), .chain derivedFirst derivedRest⟩

theorem Chain.itemized (built : vocabulary.lexicon = .ok lexicon) {limit : Nat}
    {connective : Connective} {tokens : List String} {children : List Condition}
    (nested : NestedFrom 0 limit tokens) : Chain vocabulary connective tokens children →
    ∃ items, Itemized vocabulary tokens items ∧ Tree.Chain limit connective items children
  | .last single => by
      obtain ⟨items, cut, derived⟩ := Operand.itemized built nested single
      exact ⟨items, cut, .last derived⟩
  | .more head tail => by
      obtain ⟨nestedHead, nestedTail⟩ :=
        (nestedFrom_join_iff (Operand.openAfter_eq built head)).1 nested
      obtain ⟨first, cutFirst, derivedFirst⟩ := Operand.itemized built nestedHead head
      obtain ⟨rest, cutRest, derivedRest⟩ := Chain.itemized built nestedTail tail
      exact ⟨_, cutFirst.append (.connective _ cutRest), .more derivedFirst derivedRest⟩

end

/-- If a scan admits the brackets of items, their tokens are nested within its limit. -/
theorem nestedFrom_of_admitted (built : vocabulary.lexicon = .ok lexicon) {depth limit : Nat}
    {tokens : List String} {items : List Item} (cut : Itemized vocabulary tokens items)
    (admitted : Bracket.Admitted (some limit) depth (bracketShape items)) (le : depth ≤ limit) :
    NestedFrom depth limit tokens := by
  have le_int : (depth : Int) ≤ limit := by omega
  induction cut generalizing depth with
  | nil => exact nestedFrom_nil_iff.2 le_int
  | leaf spelled rest ih =>
      have plain := spelled.not_bracket built
      rw [nestedFrom_append_iff, openAfter_of_not_bracket plain, Int.add_zero]
      exact ⟨nestedFrom_of_not_bracket plain le_int, ih admitted le le_int⟩
  | connective connective rest ih =>
      rw [nestedFrom_cons_iff, openAfter_connective, Int.add_zero]
      exact ⟨le_int, ih admitted le le_int⟩
  | bracket bracket rest ih =>
      rw [nestedFrom_cons_iff]
      refine ⟨le_int, ?_⟩
      cases bracket with
      | opening =>
          obtain ⟨within, later⟩ := admitted
          have bound : depth + 1 ≤ limit := by
            simpa [Bracket.exceeded?, Option.filter_eq_none_iff] using within
          have opening : openAfter [Bracket.opening.keyword.text] = 1 := openAfter_opening
          have bound_int : ((depth + 1 : Nat) : Int) ≤ limit := by omega
          rw [opening, ← Int.natCast_succ]
          exact ih later bound bound_int
      | closing =>
          have closing : openAfter [Bracket.closing.keyword.text] = -1 := openAfter_closing
          cases depth with
          | zero => exact admitted.elim
          | succ depth =>
              have outer := ih admitted (Nat.le_of_succ_le le) (by omega)
              have depth_eq : ((depth + 1 : Nat) : Int) + -1 = depth := by omega
              rwa [closing, depth_eq]

mutual

/-- What items derive is derived by the tokens that they stand for. -/
theorem operand_of_itemized {limit : Nat} {tokens : List String} {items : List Item}
    {condition : Condition} (cut : Itemized vocabulary tokens items) :
    Tree.Operand limit items condition → Operand vocabulary tokens condition
  | .leaf proposition => by
      cases cut with
      | leaf spelled rest =>
          cases rest
          rw [List.append_nil]
          exact .leaf spelled
  | .bracketed inner => by
      cases cut with
      | bracket _ rest =>
          obtain ⟨first, second, rfl, cutFirst, cutSecond⟩ := rest.split
          cases cutSecond with
          | bracket _ ended =>
              cases ended
              exact .bracketed (whole_of_itemized cutFirst inner)

theorem whole_of_itemized {limit : Nat} {tokens : List String} {items : List Item}
    {condition : Condition} (cut : Itemized vocabulary tokens items) :
    Tree.Whole limit items condition → Whole vocabulary tokens condition
  | .operand single => .operand (operand_of_itemized cut single)
  | .chain head tail => by
      obtain ⟨first, second, rfl, cutFirst, cutSecond⟩ := cut.split
      cases cutSecond with
      | connective _ rest =>
          exact .chain (operand_of_itemized cutFirst head) (chain_of_itemized rest tail)

theorem chain_of_itemized {limit : Nat} {connective : Connective} {tokens : List String}
    {items : List Item} {children : List Condition} (cut : Itemized vocabulary tokens items) :
    Tree.Chain limit connective items children → Chain vocabulary connective tokens children
  | .last single => .last (operand_of_itemized cut single)
  | .more head tail => by
      obtain ⟨first, second, rfl, cutFirst, cutSecond⟩ := cut.split
      cases cutSecond with
      | connective _ rest =>
          exact .more (operand_of_itemized cutFirst head) (chain_of_itemized rest tail)

end

end Vocabulary

end Grammar

end FuzzyControl
