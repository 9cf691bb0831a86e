import FuzzyControl.Proofs.Fault
import FuzzyControl.Proofs.Totality

/-!
# Truthful errors

What the error of a rule text says is true of the tokens of the text: its position lies among
them, the token that it quotes stands there, and the variable that it names lacks the value.
-/

namespace FuzzyControl

open Outcome Checked

def Lexicon.FirstUnknown (lexicon : Lexicon) (tokens : List String) (token : String) : Prop :=
  ∃ before after, tokens = before ++ token :: after ∧ lexicon.find? token = none ∧
    ∀ other ∈ before, ∃ lexeme, lexicon.find? other = some lexeme

/-- What an error says holds for the tokens of a text; a defect says nothing of the text. -/
def LanguageError.TrueOf (vocabulary : Vocabulary) (lexicon : Lexicon) (tokens : List String) :
    LanguageError → Prop
  | .missingKeyword .ifWord position =>
      position = 0 ∧ tokens.head? ≠ some Keyword.ifWord.text
  | .missingKeyword .thenWord position =>
      position = tokens.length ∧ Keyword.thenWord.text ∉ tokens
  | .missingKeyword .isWord position =>
      position < tokens.length ∧ tokens[position]? ≠ some Keyword.isWord.text
  | .missingKeyword _ _ => False
  | .unbalancedBrackets position => position < tokens.length
  | .nestingTooDeep position _ => position < tokens.length
  | .inconsistentOperator position => position < tokens.length
  | .incompleteCondition position => position < tokens.length
  | .unexpectedToken token position => tokens[position]? = some token
  | .unknownIdentifier token => lexicon.FirstUnknown tokens token
  | .unresolvedTerm term owner =>
      term ∈ tokens ∧ (∃ candidates, lexicon.find? term = some (.term candidates)) ∧
        ∃ key signature, vocabulary.signature? key = some signature ∧ signature.name = owner ∧
          term ∉ signature.values
  | .invalidConclusion (.length count) => count ≠ 3
  | .invalidConclusion (.inputVariable token) =>
      token ∈ tokens ∧ ∃ key, lexicon.find? token = some (.input key)
  | .invalidConclusion (.notOutputVariable token) =>
      token ∈ tokens ∧ ∀ key, lexicon.find? token ≠ some (.output key)
  | .nameConflict _ | .invalidName _ | .duplicateTerm .. => False
  | .defect _ => True

/-- The words of a text exist unless a token is unknown, and the first of those is reported. -/
theorem Lexicon.words_eq_error_iff {lexicon : Lexicon} {tokens : List String}
    {cause : LanguageError} :
    lexicon.words tokens = .error cause ↔
      ∃ token, lexicon.FirstUnknown tokens token ∧ cause = .unknownIdentifier token := by
  induction tokens with
  | nil =>
      constructor
      · intro fails
        cases fails
      · rintro ⟨token, ⟨before, after, same, _⟩, _⟩
        cases before <;> cases same
  | cons first rest ih =>
      rw [words]
      cases found : lexicon.find? first with
      | none =>
          constructor
          · intro fails
            cases fails
            exact ⟨first, ⟨[], rest, rfl, found, List.forall_mem_nil _⟩, rfl⟩
          · rintro ⟨token, ⟨_ | ⟨other, before⟩, after, same, _, known⟩, rfl⟩
            · cases same
              rfl
            · cases same
              obtain ⟨lexeme, meaning⟩ := known first List.mem_cons_self
              cases found.symm.trans meaning
      | some lexeme =>
          have later : (lexicon.words rest).map (⟨first, lexeme⟩ :: ·) = .error cause ↔
              lexicon.words rest = .error cause := by
            cases lexicon.words rest <;> simp [Except.map]
          dsimp only
          rw [later, ih]
          constructor
          · rintro ⟨token, ⟨before, after, rfl, unknown, known⟩, rfl⟩
            exact ⟨token, ⟨first :: before, after, rfl, unknown,
              List.forall_mem_cons.2 ⟨⟨lexeme, found⟩, known⟩⟩, rfl⟩
          · rintro ⟨token, ⟨_ | ⟨other, before⟩, after, same, unknown, known⟩, rfl⟩
            · cases same
              cases found.symm.trans unknown
            · cases same
              exact ⟨token, ⟨before, after, rfl, unknown, (List.forall_mem_cons.1 known).2⟩, rfl⟩

/-- If a reading of words fails, its error is true of their tokens. -/
def Truthful (vocabulary : Vocabulary) (lexicon : Lexicon) (words : List Word) {α : Type}
    (outcome : Except LanguageError α) : Prop :=
  Blames (LanguageError.TrueOf vocabulary lexicon (words.map (·.token))) outcome

variable {vocabulary : Vocabulary} {lexicon : Lexicon} {words rest : List Word}
  {stop start index : Nat}

theorem token_at {word : Word} (here : words[index]? = some word) :
    (words.map (·.token))[index]? = some word.token := by
  rw [List.getElem?_map, here, Option.map_some]

theorem lt_tokens_length (less : index < words.length) :
    index < (words.map (·.token)).length := by
  rwa [List.length_map]

/-- Only the name of a value can fail to be resolved, and the variable then lacks that value. -/
theorem Word.truthful_resolve (built : vocabulary.lexicon = .ok lexicon)
    (known : lexicon.Describes words) {word : Word} (here : words[index]? = some word)
    {owner : Owner} {signature : Signature}
    (declared : vocabulary.signature? owner = some signature) :
    Truthful vocabulary lexicon words (word.resolve index owner signature.name) := by
  have meaning := known word (List.mem_of_getElem? here)
  have resolved := Vocabulary.resolve?_eq_indexOf? built declared word.token
  rw [meaning, Option.bind_some] at resolved
  unfold resolve
  split
  · rename_i candidates lexeme
    rw [lexeme] at meaning
    split
    · trivial
    · rename_i unresolved
      rw [unresolved] at resolved
      have absent := List.findIdx?_eq_none_iff.1 resolved.symm
      refine ⟨List.mem_map_of_mem (List.mem_of_getElem? here), ⟨candidates, meaning⟩,
        owner, signature, declared, rfl, fun member => ?_⟩
      exact Bool.eq_false_iff.1 (absent _ member) (beq_self_eq_true _)
  · exact token_at here

theorem trueOf_missing_verb (built : vocabulary.lexicon = .ok lexicon)
    (known : lexicon.Describes words) {verb : Word} (here : words[index]? = some verb)
    (no_verb : ¬verb.isKeyword .isWord = true) :
    LanguageError.TrueOf vocabulary lexicon (words.map (·.token))
      (.missingKeyword .isWord index) := by
  have token_here := token_at here
  refine ⟨(List.getElem?_eq_some_iff.1 token_here).1, fun same => no_verb ?_⟩
  rw [token_here] at same
  have meaning := known verb (List.mem_of_getElem? here)
  exact (Word.isKeyword_iff built meaning).2 (Option.some.inj same)

/-! ## Premises -/

section Leaves

variable {input length : Nat} {signature : Signature}

theorem LeafReading.truthful_finish (built : vocabulary.lexicon = .ok lexicon)
    (known : lexicon.Describes words) (within : stop < words.length)
    (declared : vocabulary.inputs[input]? = some signature) (negated : Bool)
    (hedge : Option Hedge) (le : start + length ≤ stop)
    (spans : Spans words stop (start + length) rest) :
    Truthful vocabulary lexicon words
      (finish vocabulary input start negated hedge length rest) := by
  cases rest with
  | nil => exact lt_tokens_length (Nat.lt_of_le_of_lt le within)
  | cons word more =>
      obtain ⟨_, here, _⟩ := spans.cons
      have owned : vocabulary.signature? (.input input) = some signature := declared
      simp only [finish, declared]
      exact Blames.map (Word.truthful_resolve built known here owned) _

theorem LeafReading.truthful_afterNegation (built : vocabulary.lexicon = .ok lexicon)
    (known : lexicon.Describes words) (within : stop < words.length)
    (declared : vocabulary.inputs[input]? = some signature) (negated : Bool)
    (le : start + length ≤ stop) (spans : Spans words stop (start + length) rest) :
    Truthful vocabulary lexicon words
      (afterNegation vocabulary input start negated length rest) := by
  cases rest with
  | nil => exact truthful_finish built known within declared negated none le spans
  | cons word more =>
      obtain ⟨less, _, later⟩ := spans.cons
      simp only [afterNegation]
      cases word.hedge? with
      | some hedge =>
          have spans_term : Spans words stop (start + (length + 1)) more := later
          exact truthful_finish built known within declared negated (some hedge) less spans_term
      | none => exact truthful_finish built known within declared negated none le spans

/-- A leaf is blamed inside of the premise, or where the premise ends. -/
theorem LeafReading.truthful_read (built : vocabulary.lexicon = .ok lexicon)
    (known : lexicon.Describes words) (within : stop < words.length)
    (declared : vocabulary.inputs[input]? = some signature) (less : start < stop)
    (spans : Spans words stop (start + 1) rest) :
    Truthful vocabulary lexicon words (read vocabulary input start rest) := by
  cases rest with
  | nil => exact lt_tokens_length (Nat.lt_trans less within)
  | cons verb later =>
      obtain ⟨verb_less, here, spans_later⟩ := spans.cons
      by_cases is_verb : verb.isKeyword .isWord = true
      case neg =>
        simp only [read, if_neg is_verb]
        exact trueOf_missing_verb built known here is_verb
      cases later with
      | nil =>
          simp only [read, if_pos is_verb]
          exact truthful_afterNegation built known within declared false verb_less spans_later
      | cons word more =>
          obtain ⟨word_less, _, spans_more⟩ := spans_later.cons
          simp only [read, if_pos is_verb]
          by_cases is_not : word.isKeyword .notWord = true
          · rw [if_pos is_not]
            exact truthful_afterNegation built known within declared true word_less spans_more
          · rw [if_neg is_not]
            exact truthful_afterNegation built known within declared false verb_less spans_later

end Leaves

theorem truthful_readItems (built : vocabulary.lexicon = .ok lexicon)
    (known : lexicon.Describes words) (within : stop < words.length)
    (spans : Spans words stop start rest) :
    Truthful vocabulary lexicon words (readItems vocabulary start rest) := by
  have declared := declared_of_lexicon built known
  fun_induction readItems vocabulary start rest with
  | case1 start => trivial
  | case2 start word rest input lexeme cause fails =>
      obtain ⟨less, here, later⟩ := spans.cons
      obtain ⟨signature, owned⟩ := declared word (List.mem_of_getElem? here) (.input input) lexeme
      exact (LeafReading.truthful_read built known within owned less later).of_error fails
  | case3 start word rest input lexeme reading read ih =>
      obtain ⟨_, here, later⟩ := spans.cons
      obtain ⟨signature, owned⟩ := declared word (List.mem_of_getElem? here) (.input input) lexeme
      obtain ⟨_, _, _, positive⟩ :=
        (agrees_leaf (Nat.le_of_lt within) owned later).of_ok read
      have spans_rest := later.drop (reading.length - 1)
      have next_eq : start + 1 + (reading.length - 1) = start + reading.length := by omega
      rw [next_eq] at spans_rest
      exact Blames.map (ih spans_rest) _
  | case4 start word rest item _ _ ih => exact Blames.map (ih spans.cons.2.2) _
  | case5 start word rest _ _ => exact token_at spans.cons.2.1

/-- Brackets are blamed where they stand. -/
theorem Bracket.truthful_matchFrom {limit : Option Nat} {entries : List BracketEntry}
    (placed : ∀ entry ∈ entries, entry.position < words.length) {pending : List Pending}
    (waiting : ∀ bracket ∈ pending, bracket.position < words.length) (index : Nat) :
    Truthful vocabulary lexicon words (matchFrom limit index pending entries) := by
  induction entries generalizing index pending with
  | nil =>
      cases pending with
      | nil => trivial
      | cons innermost outer => exact lt_tokens_length (waiting innermost List.mem_cons_self)
  | cons entry rest ih =>
      obtain ⟨here, later⟩ := List.forall_mem_cons.1 placed
      unfold matchFrom
      split
      · exact ih later waiting _
      · split
        · exact lt_tokens_length here
        · exact ih later (List.forall_mem_cons.2 ⟨here, waiting⟩) _
      · split
        · exact lt_tokens_length here
        · exact Blames.map (ih later (List.forall_mem_cons.1 waiting).2 _) _

namespace Premise

theorem truthful_ofItems {placed : List PlacedItem}
    (standing : ∀ each ∈ placed,
      ∃ word, words[each.position]? = some word ∧ word.token = each.token) (stop : Nat) :
    Truthful vocabulary lexicon words (ofItems placed stop) := by
  have entries_placed : ∀ entry ∈ placed.map (·.bracketEntry), entry.position < words.length := by
    intro entry member
    obtain ⟨each, listed, rfl⟩ := List.mem_map.1 member
    obtain ⟨word, here, _⟩ := standing each listed
    exact (List.getElem?_eq_some_iff.1 here).1
  have scanned : Truthful vocabulary lexicon words
      (Bracket.pairs (some maxNesting) (placed.map (·.bracketEntry))) :=
    Bracket.truthful_matchFrom entries_placed (List.forall_mem_nil _) 0
  exact Blames.bind scanned fun _ _ => trivial

/-- The items of a premise stand where their tokens do, and the premise ends among the words. -/
structure Stands (words : List Word) (premise : Premise) : Prop where
  items : ∀ placed ∈ premise.items,
    ∃ word, words[placed.position]? = some word ∧ word.token = placed.token
  stop : premise.stop < words.length

variable {premise : Premise} {inner : Nat → Nat → Except LanguageError Condition}

namespace Stands

theorem token_here (stands : premise.Stands words) {placed : PlacedItem}
    (here : premise.items[index]? = some placed) :
    (words.map (·.token))[placed.position]? = some placed.token := by
  obtain ⟨word, word_here, same⟩ := stands.items placed (List.mem_of_getElem? here)
  rw [token_at word_here, same]

theorem position_lt (stands : premise.Stands words) {placed : PlacedItem}
    (here : premise.items[index]? = some placed) :
    placed.position < (words.map (·.token)).length :=
  (List.getElem?_eq_some_iff.1 (stands.token_here here)).1

theorem positionOf_lt (stands : premise.Stands words) (index : Nat) :
    premise.positionOf index < (words.map (·.token)).length := by
  unfold positionOf
  split
  · rename_i placed here
    exact stands.position_lt here
  · exact lt_tokens_length stands.stop

end Stands

theorem truthful_operand (stands : premise.Stands words)
    (inside : ∀ start stop, Truthful vocabulary lexicon words (inner start stop))
    (stop start : Nat) :
    Truthful vocabulary lexicon words (premise.operand inner stop start) := by
  unfold operand
  split
  · trivial
  · rename_i placed here
    split
    · trivial
    · split
      · trivial
      · split
        · exact Blames.map (inside _ _) _
        · trivial
    · trivial
    · exact stands.token_here here

theorem truthful_chain (stands : premise.Stands words)
    (inside : ∀ start stop, Truthful vocabulary lexicon words (inner start stop))
    (stop : Nat) (sofar : Option Connective) (start : Nat) :
    Truthful vocabulary lexicon words (premise.chain inner stop sofar start) := by
  fun_induction premise.chain inner stop sofar start with
  | case1 sofar start cause fails =>
      exact (truthful_operand stands inside stop start).of_error fails
  | case4 _ _ _ _ _ _ placed here => exact stands.position_lt here
  | case5 => exact stands.positionOf_lt _
  | case6 _ _ _ _ _ _ _ _ _ _ _ _ _ cause fails ih => exact ih.of_error fails
  | case9 _ _ _ _ _ _ placed here => exact stands.token_here here
  | _ => trivial

theorem truthful_build (stands : premise.Stands words) (budget first last : Nat) :
    Truthful vocabulary lexicon words (premise.build budget first last) := by
  induction budget generalizing first last with
  | zero => trivial
  | succ budget ih =>
      simp only [build]
      split
      · exact stands.positionOf_lt _
      · split
        · trivial
        · split
          · rename_i fails
            exact (truthful_chain stands ih _ _ _).of_error fails
          · trivial
          · trivial

end Premise

/-! ## Conclusions -/

namespace Conclusion

theorem truthful_subject (known : lexicon.Describes words) {word : Word}
    (here : words[index]? = some word) :
    Truthful vocabulary lexicon words (subject word) := by
  have member := List.mem_of_getElem? here
  have meaning := known word member
  unfold subject
  split
  · trivial
  · rename_i key lexeme
    rw [lexeme] at meaning
    exact ⟨List.mem_map_of_mem member, key, meaning⟩
  · rename_i no_output _
    refine ⟨List.mem_map_of_mem member, fun key same => ?_⟩
    exact no_output key (Option.some.inj (meaning.symm.trans same))

theorem truthful_readPlain (built : vocabulary.lexicon = .ok lexicon)
    (known : lexicon.Describes words) (spans : Spans words stop start rest) :
    Truthful vocabulary lexicon words (readPlain vocabulary start rest) := by
  unfold readPlain
  split
  · rename_i output verb value
    obtain ⟨_, here, spans_verb⟩ := spans.cons
    obtain ⟨_, verb_here, spans_value⟩ := spans_verb.cons
    obtain ⟨_, value_here, _⟩ := spans_value.cons
    refine Blames.bind (truthful_subject known here) fun key _ => ?_
    split
    · split
      · trivial
      · rename_i signature declared
        have owned : vocabulary.signature? (.output key) = some signature := declared
        exact Blames.bind (Word.truthful_resolve built known value_here owned) fun _ _ => trivial
    · rename_i no_verb
      exact trueOf_missing_verb built known verb_here no_verb
  · rename_i not_three
    intro three
    obtain ⟨output, verb, value, rfl⟩ := List.length_eq_three.1 three
    exact not_three output verb value rfl

theorem position_of_mem_bracketEntries {entry : BracketEntry}
    (member : entry ∈ bracketEntries start rest) : entry.position < start + rest.length := by
  obtain ⟨⟨word, position⟩, listed, rfl⟩ := List.mem_map.1 member
  exact (List.mem_zipIdx listed).2.1

theorem truthful_read (built : vocabulary.lexicon = .ok lexicon)
    (known : lexicon.Describes words) (le : start ≤ words.length) :
    Truthful vocabulary lexicon words (read vocabulary start (words.drop start)) := by
  have spans : Spans words words.length start (words.drop start) := by
    rw [Spans, List.take_length]
  have placed : ∀ entry ∈ bracketEntries start (words.drop start),
      entry.position < words.length := by
    intro entry member
    have less := position_of_mem_bracketEntries member
    rwa [List.length_drop, Nat.add_sub_cancel' le] at less
  refine Blames.bind (Bracket.truthful_matchFrom placed (List.forall_mem_nil _) 0) fun _ _ => ?_
  split
  · rename_i enclosed
    have long : 2 ≤ (words.drop start).length := by
      simp only [isEnclosed, Bool.and_eq_true, decide_eq_true_eq] at enclosed
      exact enclosed.1
    rw [List.length_drop] at long
    have spans_inner : Spans words (words.length - 1) (start + 1)
        (words.drop start).tail.dropLast := by
      rw [← List.drop_one]
      exact (spans.drop 1).dropLast (Nat.le_refl _) (by omega)
    exact truthful_readPlain built known spans_inner
  · exact truthful_readPlain built known spans

end Conclusion

/-! ## Rule texts -/

namespace Vocabulary

theorem truthful_readWords (built : vocabulary.lexicon = .ok lexicon)
    (known : lexicon.Describes words) :
    Truthful vocabulary lexicon words (vocabulary.readWords words) := by
  unfold readWords
  split
  · rename_i not_started
    refine ⟨rfl, fun same => ?_⟩
    obtain ⟨first, head_eq, token_eq⟩ := Option.map_eq_some_iff.1 (List.head?_map.symm.trans same)
    have meaning := known first (List.mem_of_mem_head? head_eq)
    rw [head_eq, Option.any_some, (Word.isKeyword_iff built meaning).2 token_eq] at not_started
    cases not_started
  · split
    · rename_i no_turn
      refine ⟨(List.length_map _).symm, fun member => ?_⟩
      obtain ⟨word, listed, token_eq⟩ := List.mem_map.1 member
      have stays := List.findIdx?_eq_none_iff.1 no_turn word listed
      rw [(Word.isKeyword_iff built (known word listed)).2 token_eq] at stays
      cases stays
    · rename_i stop turns
      obtain ⟨before, turn, after, words_eq, length_eq, _⟩ := thenPosition?_eq_some_iff.1 turns
      have within : stop < words.length := by
        rw [words_eq, List.length_append, List.length_cons]
        omega
      have spans : Spans words stop 1 ((words.take stop).drop 1) := rfl
      refine Blames.bind (truthful_readItems built known within spans) fun placed read => ?_
      obtain ⟨_, _, same⟩ := (agrees_items (Nat.le_of_lt within)
        (declared_of_lexicon built known) spans).of_ok read
      refine Blames.bind (Premise.truthful_ofItems same.2 stop) fun premise matched => ?_
      obtain ⟨partners, _, rfl⟩ := Premise.ofItems_eq_ok_iff.1 matched
      have stands : Premise.Stands words ⟨placed, partners, stop⟩ := ⟨same.2, within⟩
      refine Blames.bind (Premise.truthful_build stands _ _ _) fun condition _ => ?_
      exact Blames.bind (Conclusion.truthful_read built known within) fun _ _ => trivial

/-- Reading fails for an unknown token before anything else. -/
theorem readText_of_unknown {text : String}
    (unknown : ∃ token ∈ tokenize text, lexicon.find? token = none) :
    ∃ token, vocabulary.readText lexicon text = .error (.unknownIdentifier token) := by
  obtain ⟨token, member, meaning⟩ := unknown
  cases found : lexicon.words (tokenize text) with
  | error cause =>
      obtain ⟨first, _, rfl⟩ := Lexicon.words_eq_error_iff.1 found
      exact ⟨first, by rw [readText, found, error_bind]⟩
  | ok words =>
      obtain ⟨words_eq, known⟩ := Lexicon.words_eq_ok_iff.1 found
      rw [← words_eq] at member
      obtain ⟨word, listed, rfl⟩ := List.mem_map.1 member
      cases meaning.symm.trans (known word listed)

theorem trueOf_of_readText (built : vocabulary.lexicon = .ok lexicon) {text : String}
    {cause : LanguageError} (fails : vocabulary.readText lexicon text = .error cause) :
    cause.TrueOf vocabulary lexicon (tokenize text) := by
  cases found : lexicon.words (tokenize text) with
  | error unknown =>
      rw [readText, found, error_bind] at fails
      cases fails
      obtain ⟨token, first, rfl⟩ := Lexicon.words_eq_error_iff.1 found
      exact first
  | ok words =>
      rw [readText, found, ok_bind] at fails
      obtain ⟨words_eq, known⟩ := Lexicon.words_eq_ok_iff.1 found
      rw [← words_eq]
      exact (truthful_readWords built known).of_error fails

end Vocabulary

/-- No truthful error is about declarations or about inputs of the controller. -/
theorem LanguageError.TrueOf.kind {tokens : List String} {cause : LanguageError}
    (holds : cause.TrueOf vocabulary lexicon tokens) (fault : cause.IsFault) :
    cause.kind = .grammar ∨ cause.kind = .nameResolution := by
  cases cause with
  | nameConflict _ | invalidName _ | duplicateTerm _ _ => exact holds.elim
  | defect _ => exact fault.elim
  | unknownIdentifier _ | unresolvedTerm _ _ => exact .inr rfl
  | _ => exact .inl rfl

/--
Once there is a lexicon, every text that is refused is refused for its grammar or its names,
for an unknown token exactly if it has one, and with an error that is true of its tokens.
-/
theorem Vocabulary.errors_are_true {vocabulary : Vocabulary} {lexicon : Lexicon}
    (built : vocabulary.lexicon = .ok lexicon) {text : String} {cause : LanguageError}
    (fails : vocabulary.readText lexicon text = .error cause) :
    (cause.kind = .grammar ∨ cause.kind = .nameResolution) ∧
      ((∃ token, cause = .unknownIdentifier token) ↔
        ∃ token ∈ tokenize text, lexicon.find? token = none) ∧
      cause.TrueOf vocabulary lexicon (tokenize text) := by
  have holds := trueOf_of_readText built fails
  have fault := ((agrees_readText built text).of_error fails).2
  refine ⟨holds.kind fault, ⟨?_, fun unknown => ?_⟩, holds⟩
  · rintro ⟨token, rfl⟩
    obtain ⟨before, after, tokens_eq, unknown, _⟩ := holds
    rw [tokens_eq]
    exact ⟨token, List.mem_append_right _ List.mem_cons_self, unknown⟩
  · obtain ⟨token, refused⟩ := readText_of_unknown unknown
    exact ⟨token, Except.error.inj (fails.symm.trans refused)⟩

theorem RuleBase.tipping_blames :
    ∃ lexicon, tipping.vocabulary.lexicon = .ok lexicon ∧
      tipping.vocabulary.readText lexicon "if food is low then" =
        .error (.unresolvedTerm "low" "food") ∧
      ∃ key signature, tipping.vocabulary.signature? key = some signature ∧
        signature.name = "food" ∧ "low" ∉ signature.values := by
  obtain ⟨lexicon, built⟩ := tipping_lexicon
  have tokens_eq : tokenize "if food is low then" = ["if", "food", "is", "low", "then"] := by
    decide +kernel
  have words_eq : lexicon.words ["if", "food", "is", "low", "then"] =
      .ok [⟨"if", .keyword .ifWord⟩, ⟨"food", .input 0⟩, ⟨"is", .keyword .isWord⟩,
        ⟨"low", .term [⟨.output 0, 0⟩]⟩, ⟨"then", .keyword .thenWord⟩] := by
    cases built
    rfl
  have fails : tipping.vocabulary.readText lexicon "if food is low then" =
      .error (.unresolvedTerm "low" "food") := by
    have cut : Vocabulary.thenPosition? [⟨"if", .keyword .ifWord⟩, ⟨"food", .input 0⟩,
        ⟨"is", .keyword .isWord⟩, ⟨"low", .term [⟨.output 0, 0⟩]⟩, ⟨"then", .keyword .thenWord⟩] =
        some 4 := rfl
    have read : readItems tipping.vocabulary 1 [⟨"food", .input 0⟩, ⟨"is", .keyword .isWord⟩,
        ⟨"low", .term [⟨.output 0, 0⟩]⟩] = .error (.unresolvedTerm "low" "food") := by
      rw [readItems]
      rfl
    rw [Vocabulary.readText, tokens_eq, words_eq, ok_bind]
    exact (Vocabulary.readWords_parts rfl cut).trans (by rw [read, error_bind])
  exact ⟨lexicon, built, fails, (Vocabulary.errors_are_true built fails).2.2.2.2⟩

end FuzzyControl
