import FuzzyControl.Language.Grammar
import FuzzyControl.Proofs.Lexicon
import FuzzyControl.Proofs.Outcome

/-!
# Items and the tokens that they stand for

Reading the items of a premise succeeds exactly if its tokens can be cut into leaves,
brackets and connectives, and then there is only one way to do so.
-/

namespace FuzzyControl

def Bracket.keyword : Bracket → Keyword
  | .opening => .openBracket
  | .closing => .closeBracket

/-- The tokens can be cut into the items. -/
inductive Itemized (vocabulary : Vocabulary) : List String → List Item → Prop where
  | nil : Itemized vocabulary [] []
  | leaf {tokens more : List String} {proposition : Proposition} {items : List Item}
      (spelled : Grammar.Leaf vocabulary tokens proposition)
      (rest : Itemized vocabulary more items) :
      Itemized vocabulary (tokens ++ more) (.leaf proposition :: items)
  | bracket {more : List String} {items : List Item} (bracket : Bracket)
      (rest : Itemized vocabulary more items) :
      Itemized vocabulary (bracket.keyword.text :: more) (.bracket bracket :: items)
  | connective {more : List String} {items : List Item} (connective : Connective)
      (rest : Itemized vocabulary more items) :
      Itemized vocabulary (connective.keyword.text :: more) (.connective connective :: items)

namespace Itemized

variable {vocabulary : Vocabulary}

theorem append {first second : List String} {before after : List Item}
    (left : Itemized vocabulary first before) (right : Itemized vocabulary second after) :
    Itemized vocabulary (first ++ second) (before ++ after) := by
  induction left with
  | nil => exact right
  | leaf spelled rest ih =>
      rw [List.append_assoc]
      exact .leaf spelled ih
  | bracket bracket rest ih => exact .bracket bracket ih
  | connective connective rest ih => exact .connective connective ih

/-- The tokens of consecutive items are consecutive. -/
theorem split {tokens : List String} {before after : List Item}
    (whole : Itemized vocabulary tokens (before ++ after)) :
    ∃ first second, tokens = first ++ second ∧ Itemized vocabulary first before ∧
      Itemized vocabulary second after := by
  induction before generalizing tokens with
  | nil => exact ⟨[], tokens, rfl, .nil, whole⟩
  | cons item items ih =>
      rw [List.cons_append] at whole
      cases whole with
      | leaf spelled rest =>
          obtain ⟨first, second, rfl, left, right⟩ := ih rest
          exact ⟨_, second, (List.append_assoc _ _ _).symm, .leaf spelled left, right⟩
      | bracket bracket rest =>
          obtain ⟨first, second, rfl, left, right⟩ := ih rest
          exact ⟨_ :: first, second, rfl, .bracket bracket left, right⟩
      | connective connective rest =>
          obtain ⟨first, second, rfl, left, right⟩ := ih rest
          exact ⟨_ :: first, second, rfl, .connective connective left, right⟩

end Itemized

section Reading

variable {vocabulary : Vocabulary} {lexicon : Lexicon}

namespace Word

variable {word : Word}

theorem hedge?_eq_some_iff (built : vocabulary.lexicon = .ok lexicon)
    (known : lexicon.find? word.token = some word.lexeme) {hedge : Hedge} :
    word.hedge? = some hedge ↔ word.token = hedge.word := by
  have keyword : _ ↔ word.token = (Keyword.adverb hedge).text :=
    Vocabulary.find?_eq_keyword_iff built
  rw [known, Option.some.injEq] at keyword
  refine Iff.trans ?_ keyword
  unfold hedge?
  split
  · rename_i own lexeme
    rw [lexeme]
    simp
  · rename_i other
    simpa using fun lexeme => other hedge lexeme

/-- The name of a value is no hedge and no keyword. -/
theorem isTerm_of_indexOf? (built : vocabulary.lexicon = .ok lexicon)
    (known : lexicon.find? word.token = some word.lexeme) {owner : Owner} {signature : Signature}
    (declared : vocabulary.signature? owner = some signature) {index : Nat}
    (named : signature.indexOf? word.token = some index) :
    ∃ candidates, word.lexeme = .term candidates := by
  have resolved := Vocabulary.resolve?_eq_indexOf? built declared word.token
  rw [known, Option.bind_some, named] at resolved
  cases shape : word.lexeme with
  | term candidates => exact ⟨candidates, rfl⟩
  | _ => simp [shape, Lexeme.resolve?] at resolved

end Word

namespace LeafReading

variable {signature : Signature} {input : Nat}

/-- The last part of a leaf is the name of one of the terms. -/
theorem finish_eq_ok_iff (built : vocabulary.lexicon = .ok lexicon)
    (declared : vocabulary.inputs[input]? = some signature) {position length : Nat}
    {negated : Bool} {hedge : Option Hedge} {words : List Word} (known : lexicon.Describes words)
    {reading : LeafReading} :
    finish vocabulary input position negated hedge length words = .ok reading ↔
      ∃ term index more, words.map (·.token) = term :: more ∧
        signature.indexOf? term = some index ∧
        reading = ⟨⟨input, index, negated, hedge⟩, length + 1⟩ := by
  cases words with
  | nil => simp [finish]
  | cons word rest =>
      have owned : vocabulary.signature? (.input input) = some signature := declared
      have resolved (index : Nat) :
          word.resolve (position + length) (.input input) signature.name = .ok index ↔ _ :=
        Word.resolve_eq_ok_iff built known.head owned
      simp only [finish, declared, List.map_cons]
      constructor
      · intro read
        cases found : word.resolve (position + length) (.input input) signature.name with
        | error cause => simp [found, Except.map] at read
        | ok index =>
            rw [found] at read
            cases read
            exact ⟨_, index, _, rfl, (resolved index).1 found, rfl⟩
      · rintro ⟨term, index, more, same, named, rfl⟩
        obtain ⟨rfl, _⟩ := List.cons.inj same
        rw [(resolved index).2 named]
        rfl

/-- In front of the term there may be a hedge. -/
theorem afterNegation_eq_ok_iff (built : vocabulary.lexicon = .ok lexicon)
    (declared : vocabulary.inputs[input]? = some signature) {position length : Nat}
    {negated : Bool} {words : List Word} (known : lexicon.Describes words)
    {reading : LeafReading} :
    afterNegation vocabulary input position negated length words = .ok reading ↔
      ∃ hedge term index more, words.map (·.token) = hedgeTokens hedge ++ term :: more ∧
        signature.indexOf? term = some index ∧
        reading = ⟨⟨input, index, negated, hedge⟩, length + (hedgeTokens hedge).length + 1⟩ := by
  have owned : vocabulary.signature? (.input input) = some signature := declared
  cases words with
  | nil =>
      rw [afterNegation, finish_eq_ok_iff built declared known]
      simp
  | cons word rest =>
      have known_word := known.head
      have known_rest := known.tail
      rw [afterNegation]
      cases found : word.hedge? with
      | some hedge =>
          have hedge_eq := (Word.hedge?_eq_some_iff built known_word).1 found
          simp only
          rw [finish_eq_ok_iff built declared known_rest]
          constructor
          · rintro ⟨term, index, more, same, named, rfl⟩
            refine ⟨some hedge, term, index, more, ?_, named, rfl⟩
            rw [List.map_cons, hedge_eq, same]
            rfl
          · rintro ⟨own, term, index, more, same, named, rfl⟩
            cases own with
            | none =>
                obtain ⟨rfl, _⟩ := List.cons.inj same
                obtain ⟨_, is_term⟩ := Word.isTerm_of_indexOf? built known_word owned named
                simp [Word.hedge?, is_term] at found
            | some own =>
                obtain ⟨token_eq, rest_eq⟩ := List.cons.inj same
                have own_eq := (Word.hedge?_eq_some_iff built known_word).2 token_eq
                cases found.symm.trans own_eq
                exact ⟨term, index, more, rest_eq, named, rfl⟩
      | none =>
          simp only
          rw [finish_eq_ok_iff built declared known]
          constructor
          · rintro ⟨term, index, more, same, named, rfl⟩
            exact ⟨none, term, index, more, same, named, rfl⟩
          · rintro ⟨own, term, index, more, same, named, rfl⟩
            cases own with
            | none => exact ⟨term, index, more, same, named, rfl⟩
            | some own =>
                obtain ⟨token_eq, _⟩ := List.cons.inj same
                have own_eq := (Word.hedge?_eq_some_iff built known_word).2 token_eq
                cases found.symm.trans own_eq

/-- What follows a negation does not start with another one. -/
theorem not_isKeyword_notWord (built : vocabulary.lexicon = .ok lexicon) {owner : Owner}
    (declared : vocabulary.signature? owner = some signature) {word : Word} {rest : List String}
    (known : lexicon.find? word.token = some word.lexeme) {hedge : Option Hedge} {term : String}
    {index : Nat} {more : List String}
    (same : word.token :: rest = hedgeTokens hedge ++ term :: more)
    (named : signature.indexOf? term = some index) : word.token ≠ Keyword.notWord.text := by
  intro negation
  cases hedge with
  | none =>
      obtain ⟨rfl, _⟩ := List.cons.inj same
      obtain ⟨_, is_term⟩ := Word.isTerm_of_indexOf? built known declared named
      have is_keyword := (Vocabulary.find?_eq_keyword_iff built).2 negation
      rw [known, is_term] at is_keyword
      cases is_keyword
  | some hedge =>
      obtain ⟨token_eq, _⟩ := List.cons.inj same
      have adverb : (Keyword.adverb hedge).text = Keyword.notWord.text := token_eq.symm.trans negation
      cases Keyword.text_injective adverb

theorem read_negated {position : Nat} {verb word : Word} {later : List Word}
    (is_verb : verb.isKeyword .isWord = true) (negation : word.isKeyword .notWord = true) :
    read vocabulary input position (verb :: word :: later) =
      afterNegation vocabulary input position true 3 later := by
  simp only [read, if_pos is_verb, if_pos negation]

theorem read_affirmed {position : Nat} {verb : Word} {rest : List Word}
    (is_verb : verb.isKeyword .isWord = true)
    (affirmed : ∀ word ∈ rest.head?, ¬word.isKeyword .notWord = true) :
    read vocabulary input position (verb :: rest) =
      afterNegation vocabulary input position false 2 rest := by
  cases rest with
  | nil => simp only [read, if_pos is_verb]
  | cons word later => simp only [read, if_pos is_verb, if_neg (affirmed word rfl)]

/-- After `is` there are perhaps a negation and a hedge, and a term. -/
theorem read_verb_eq_ok_iff (built : vocabulary.lexicon = .ok lexicon)
    (declared : vocabulary.inputs[input]? = some signature) (position : Nat) {verb : Word}
    {rest : List Word} (is_verb : verb.isKeyword .isWord = true)
    (known : lexicon.Describes rest) {reading : LeafReading} :
    read vocabulary input position (verb :: rest) = .ok reading ↔
      ∃ negated hedge term index more,
        rest.map (·.token) = negationTokens negated ++ (hedgeTokens hedge ++ term :: more) ∧
        signature.indexOf? term = some index ∧
        reading = ⟨⟨input, index, negated, hedge⟩,
          3 + (negationTokens negated).length + (hedgeTokens hedge).length⟩ := by
  have owned : vocabulary.signature? (.input input) = some signature := declared
  have length_eq (negated : Bool) (hedge : Option Hedge) :
      2 + (negationTokens negated).length + (hedgeTokens hedge).length + 1 =
        3 + (negationTokens negated).length + (hedgeTokens hedge).length := by
    omega
  by_cases negation : ∃ word ∈ rest.head?, word.isKeyword .notWord = true
  · obtain ⟨word, head, negation⟩ := negation
    obtain ⟨later, rfl⟩ := List.head?_eq_some_iff.1 head
    have token_eq := (Word.isKeyword_iff built known.head).1 negation
    rw [read_negated is_verb negation, afterNegation_eq_ok_iff built declared known.tail]
    constructor
    · rintro ⟨hedge, term, index, more, same, named, rfl⟩
      refine ⟨true, hedge, term, index, more, ?_, named, ?_⟩
      · rw [List.map_cons, token_eq, same]
        rfl
      · rw [← length_eq]
        rfl
    · rintro ⟨negated, hedge, term, index, more, same, named, rfl⟩
      cases negated with
      | false =>
          exact absurd token_eq (not_isKeyword_notWord built owned known.head same named)
      | true =>
          obtain ⟨_, later_eq⟩ := List.cons.inj same
          refine ⟨hedge, term, index, more, later_eq, named, ?_⟩
          rw [← length_eq]
          rfl
  · have affirmed : ∀ word ∈ rest.head?, ¬word.isKeyword .notWord = true :=
      fun word head is_not => negation ⟨word, head, is_not⟩
    rw [read_affirmed is_verb affirmed, afterNegation_eq_ok_iff built declared known]
    constructor
    · rintro ⟨hedge, term, index, more, same, named, rfl⟩
      refine ⟨false, hedge, term, index, more, same, named, ?_⟩
      rw [← length_eq]
      rfl
    · rintro ⟨negated, hedge, term, index, more, same, named, rfl⟩
      cases negated with
      | false =>
          refine ⟨hedge, term, index, more, same, named, ?_⟩
          rw [← length_eq]
          rfl
      | true =>
          obtain ⟨word, later, rfl, token_eq, _⟩ := List.map_eq_cons_iff.1 same
          exact absurd ((Word.isKeyword_iff built known.head).2 token_eq) (affirmed word rfl)

/-- After the name of an input there are `is`, perhaps a negation and a hedge, and a term. -/
theorem read_eq_ok_iff (built : vocabulary.lexicon = .ok lexicon)
    (declared : vocabulary.inputs[input]? = some signature) (position : Nat) {words : List Word}
    (known : lexicon.Describes words) {reading : LeafReading} :
    read vocabulary input position words = .ok reading ↔
      ∃ negated hedge term index more,
        words.map (·.token) = Keyword.isWord.text ::
          (negationTokens negated ++ (hedgeTokens hedge ++ term :: more)) ∧
        signature.indexOf? term = some index ∧
        reading = ⟨⟨input, index, negated, hedge⟩,
          3 + (negationTokens negated).length + (hedgeTokens hedge).length⟩ := by
  cases words with
  | nil => simp [read]
  | cons verb rest =>
      have verb_iff : _ ↔ verb.token = Keyword.isWord.text :=
        Word.isKeyword_iff built known.head
      by_cases is_verb : verb.isKeyword .isWord = true
      · rw [read_verb_eq_ok_iff built declared position is_verb known.tail, List.map_cons,
          verb_iff.1 is_verb]
        simp only [List.cons.injEq, true_and]
      · constructor
        · intro reads
          simp [read, is_verb] at reads
        · rintro ⟨_, _, _, _, _, same, _⟩
          exact absurd (verb_iff.2 (List.cons.inj same).1) is_verb

end LeafReading

/-- Brackets and connectives are read from their keywords, and nothing else is. -/
theorem Word.item?_eq_some_iff (built : vocabulary.lexicon = .ok lexicon) {word : Word}
    (known : lexicon.find? word.token = some word.lexeme) {item : Item} :
    word.item? = some item ↔
      (∃ bracket, item = .bracket bracket ∧ word.token = bracket.keyword.text) ∨
        ∃ connective, item = .connective connective ∧ word.token = connective.keyword.text := by
  have keyword (own : Keyword) : word.lexeme = .keyword own ↔ word.token = own.text := by
    rw [← Vocabulary.find?_eq_keyword_iff built, known, Option.some.injEq]
  simp only [← keyword]
  constructor
  · intro found
    unfold Word.item? at found
    split at found
    · rename_i lexeme
      cases found
      exact .inl ⟨.opening, rfl, lexeme⟩
    · rename_i lexeme
      cases found
      exact .inl ⟨.closing, rfl, lexeme⟩
    · rename_i lexeme
      cases found
      exact .inr ⟨.and, rfl, lexeme⟩
    · rename_i lexeme
      cases found
      exact .inr ⟨.or, rfl, lexeme⟩
    · cases found
  · rintro (⟨bracket, rfl, lexeme⟩ | ⟨connective, rfl, lexeme⟩)
    · cases bracket <;> simp only [Word.item?, lexeme, Bracket.keyword]
    · cases connective <;> simp only [Word.item?, lexeme, Connective.keyword]

theorem leaf_append (name term : String) (negated : Bool) (hedge : Option Hedge)
    (more : List String) :
    (name :: Keyword.isWord.text :: (negationTokens negated ++ hedgeTokens hedge ++ [term])) ++ more =
      name :: Keyword.isWord.text :: (negationTokens negated ++ (hedgeTokens hedge ++ term :: more)) := by
  simp

theorem drop_leaf (term : String) (negated : Bool) (hedge : Option Hedge) (more : List String) :
    (Keyword.isWord.text :: (negationTokens negated ++ (hedgeTokens hedge ++ term :: more))).drop
      (3 + (negationTokens negated).length + (hedgeTokens hedge).length - 1) = more := by
  have shape : Keyword.isWord.text ::
      (negationTokens negated ++ (hedgeTokens hedge ++ term :: more)) =
        (Keyword.isWord.text :: (negationTokens negated ++ hedgeTokens hedge ++ [term])) ++ more := by
    simp
  rw [shape]
  refine List.drop_left' ?_
  simp only [List.length_cons, List.length_append, List.length_nil]
  omega

theorem itemized_of_readItems (built : vocabulary.lexicon = .ok lexicon) {position : Nat}
    {words : List Word} (known : lexicon.Describes words) {placed : List PlacedItem}
    (read : readItems vocabulary position words = .ok placed) :
    Itemized vocabulary (words.map (·.token)) (placed.map (·.item)) := by
  fun_induction readItems vocabulary position words generalizing placed with
  | case1 =>
      cases read
      exact .nil
  | case2 => cases read
  | case3 position word rest input lexeme reading leaf ih =>
      obtain ⟨later, found, rfl⟩ := Outcome.map_eq_ok_iff.1 read
      have known_rest := known.tail
      have is_input : lexicon.find? word.token = some (Owner.input input).lexeme := by
        rw [known.head, lexeme]
        rfl
      obtain ⟨signature, declared, named⟩ := (Vocabulary.find?_eq_owner_iff built).1 is_input
      obtain ⟨negated, hedge, term, index, more, tokens_eq, resolved, rfl⟩ :=
        (LeafReading.read_eq_ok_iff built declared position known_rest).1 leaf
      have inner := ih (fun other member => known_rest other (List.mem_of_mem_drop member)) found
      rw [List.map_drop, tokens_eq, drop_leaf] at inner
      rw [List.map_cons, List.map_cons, tokens_eq, named, ← leaf_append]
      exact .leaf (.spelled negated hedge declared resolved) inner
  | case4 position word rest item found no_input ih =>
      obtain ⟨later, found_later, rfl⟩ := Outcome.map_eq_ok_iff.1 read
      have inner := ih known.tail found_later
      rw [List.map_cons, List.map_cons]
      rcases (Word.item?_eq_some_iff built known.head).1 found with
        ⟨bracket, rfl, token_eq⟩ | ⟨connective, rfl, token_eq⟩
      · rw [token_eq]
        exact .bracket bracket inner
      · rw [token_eq]
        exact .connective connective inner
  | case5 => cases read

theorem readItems_of_leaf {position input : Nat} {word : Word} {rest : List Word}
    {reading : LeafReading} (lexeme : word.lexeme = .input input)
    (read : LeafReading.read vocabulary input position rest = .ok reading) :
    readItems vocabulary position (word :: rest) =
      (readItems vocabulary (position + reading.length) (rest.drop (reading.length - 1))).map
        (⟨position, word.token, .leaf reading.proposition⟩ :: ·) := by
  rw [readItems]
  simp only [lexeme, read]

theorem readItems_of_item? {position : Nat} {word : Word} {rest : List Word} {item : Item}
    (found : word.item? = some item) :
    readItems vocabulary position (word :: rest) =
      (readItems vocabulary (position + 1) rest).map (⟨position, word.token, item⟩ :: ·) := by
  rw [readItems]
  split
  · rename_i lexeme
    simp [Word.item?, lexeme] at found
  · rw [found]

theorem exists_readItems_of_item? {position : Nat} {word : Word} {rest : List Word} {item : Item}
    {items : List Item} (found : word.item? = some item)
    (later : ∃ placed, readItems vocabulary (position + 1) rest = .ok placed ∧
      placed.map (·.item) = items) :
    ∃ placed, readItems vocabulary position (word :: rest) = .ok placed ∧
      placed.map (·.item) = item :: items := by
  obtain ⟨placed, read, rfl⟩ := later
  refine ⟨⟨position, word.token, item⟩ :: placed, ?_, rfl⟩
  rw [readItems_of_item? found, read]
  rfl

/-- Tokens that can be cut into items are read as those items. -/
theorem readItems_of_itemized (built : vocabulary.lexicon = .ok lexicon) (position : Nat)
    {tokens : List String} {items : List Item} (cut : Itemized vocabulary tokens items)
    {words : List Word} (known : lexicon.Describes words)
    (tokens_eq : words.map (·.token) = tokens) :
    ∃ placed, readItems vocabulary position words = .ok placed ∧ placed.map (·.item) = items := by
  induction cut generalizing position words with
  | nil =>
      rw [List.map_eq_nil_iff.1 tokens_eq]
      exact ⟨[], by rw [readItems], rfl⟩
  | @leaf _ more _ items spelled rest ih =>
      obtain ⟨negated, hedge, declared, named⟩ := spelled
      rename_i input signature term index
      rw [leaf_append] at tokens_eq
      cases words with
      | nil => cases tokens_eq
      | cons word others =>
          obtain ⟨token_eq, others_eq⟩ := List.cons.inj tokens_eq
          have owned : vocabulary.signature? (.input input) = some signature := declared
          have lexeme : word.lexeme = .input input := by
            have meaning := Vocabulary.find?_name built owned
            rw [← token_eq, known.head] at meaning
            exact Option.some.inj meaning
          have leaf := (LeafReading.read_eq_ok_iff built declared position known.tail).2
            ⟨negated, hedge, term, index, more, others_eq, named, rfl⟩
          have more_eq := drop_leaf term negated hedge more
          rw [← others_eq, ← List.map_drop] at more_eq
          obtain ⟨placed, read, items_eq⟩ := ih _ (fun other member =>
            known.tail other (List.mem_of_mem_drop member)) more_eq
          refine ⟨⟨position, word.token, .leaf ⟨input, index, negated, hedge⟩⟩ :: placed, ?_, ?_⟩
          · rw [readItems_of_leaf lexeme leaf, read]
            rfl
          · rw [List.map_cons, items_eq]
  | bracket bracket rest ih =>
      obtain ⟨word, others, rfl, token_eq, others_eq⟩ := List.map_eq_cons_iff.1 tokens_eq
      have found := (Word.item?_eq_some_iff built known.head).2 (.inl ⟨bracket, rfl, token_eq⟩)
      exact exists_readItems_of_item? found (ih (position + 1) known.tail others_eq)
  | connective connective rest ih =>
      obtain ⟨word, others, rfl, token_eq, others_eq⟩ := List.map_eq_cons_iff.1 tokens_eq
      have found := (Word.item?_eq_some_iff built known.head).2 (.inr ⟨connective, rfl, token_eq⟩)
      exact exists_readItems_of_item? found (ih (position + 1) known.tail others_eq)

end Reading

end FuzzyControl
