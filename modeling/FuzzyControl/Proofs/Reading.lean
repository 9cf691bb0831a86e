import FuzzyControl.Language.Reading
import FuzzyControl.Proofs.Grammar

/-!
# Reading follows the grammar

A rule text is read exactly if its tokens spell a statement, and it is read as that
statement.
-/

namespace FuzzyControl

variable {vocabulary : Vocabulary} {lexicon : Lexicon}

namespace Word

variable {word : Word}

/-- A word is a bracket exactly if its token is one. -/
theorem bracket?_eq_some_iff (built : vocabulary.lexicon = .ok lexicon)
    (known : lexicon.find? word.token = some word.lexeme) {bracket : Bracket} :
    word.bracket? = some bracket ↔ word.token = bracket.keyword.text := by
  rw [← Vocabulary.find?_eq_keyword_iff built, known, Option.some.injEq]
  unfold bracket?
  split
  · rename_i lexeme
    rw [lexeme]
    cases bracket <;> simp [Bracket.keyword]
  · rename_i lexeme
    rw [lexeme]
    cases bracket <;> simp [Bracket.keyword]
  · rename_i notOpening notClosing
    cases bracket with
    | opening => simpa [Bracket.keyword] using notOpening
    | closing => simpa [Bracket.keyword] using notClosing

theorem bracket?_eq_none_iff (built : vocabulary.lexicon = .ok lexicon)
    (known : lexicon.find? word.token = some word.lexeme) :
    word.bracket? = none ↔ ∀ bracket : Bracket, word.token ≠ bracket.keyword.text := by
  rw [Option.eq_none_iff_forall_ne_some]
  exact forall_congr' fun bracket => not_congr (bracket?_eq_some_iff built known)

end Word

namespace Conclusion

theorem subject_eq_ok_iff {word : Word} {key : Nat} :
    subject word = .ok key ↔ word.lexeme = .output key := by
  unfold subject
  split
  · rename_i own lexeme
    simp [lexeme]
  · rename_i own lexeme
    simp [lexeme]
  · rename_i other _
    simpa using other key

/-- Without brackets a conclusion is the name of an output, `is`, and the name of a value. -/
theorem readPlain_eq_ok_iff (built : vocabulary.lexicon = .ok lexicon) (position : Nat)
    {words : List Word} (known : lexicon.Describes words) {conclusion : Conclusion} :
    readPlain vocabulary position words = .ok conclusion ↔
      ∃ output signature value index, vocabulary.outputs[output]? = some signature ∧
        signature.indexOf? value = some index ∧
        words.map (·.token) = [signature.name, Keyword.isWord.text, value] ∧
        conclusion = { output := output, value := index } := by
  constructor
  · intro read
    unfold readPlain at read
    split at read
    · rename_i subjectWord verb valueWord
      obtain ⟨output, readSubject, rest⟩ := Outcome.bind_eq_ok_iff.1 read
      have is_output : lexicon.find? subjectWord.token = some (Owner.output output).lexeme := by
        rw [known.head, subject_eq_ok_iff.1 readSubject]
        rfl
      obtain ⟨signature, declared, named⟩ := (Vocabulary.find?_eq_owner_iff built).1 is_output
      have declared_output : vocabulary.outputs[output]? = some signature := declared
      split at rest
      · rename_i is_verb
        rw [declared_output] at rest
        obtain ⟨index, resolved, same⟩ := Outcome.bind_eq_ok_iff.1 rest
        cases same
        have value_named :=
          (Word.resolve_eq_ok_iff built known.tail.tail.head declared).1 resolved
        have verb_eq := (Word.isKeyword_iff built known.tail.head).1 is_verb
        refine ⟨output, signature, valueWord.token, index, declared_output, value_named, ?_, rfl⟩
        simp only [List.map_cons, List.map_nil, named, verb_eq]
      · cases rest
    · cases read
  · rintro ⟨output, signature, value, index, declared, value_named, tokens_eq, rfl⟩
    obtain ⟨subjectWord, rest, rfl, subject_eq, rest_eq⟩ := List.map_eq_cons_iff.1 tokens_eq
    obtain ⟨verb, others, rfl, verb_eq, others_eq⟩ := List.map_eq_cons_iff.1 rest_eq
    obtain ⟨valueWord, ended, rfl, rfl, ended_eq⟩ := List.map_eq_cons_iff.1 others_eq
    rw [List.map_eq_nil_iff.1 ended_eq] at known ⊢
    have owned : vocabulary.signature? (.output output) = some signature := declared
    have is_output : subjectWord.lexeme = .output output := by
      have meaning := Vocabulary.find?_name built owned
      rw [← subject_eq, known.head] at meaning
      exact Option.some.inj meaning
    have is_verb := (Word.isKeyword_iff built known.tail.head).2 verb_eq
    have resolved : valueWord.resolve (position + 2) (.output output) signature.name = .ok index :=
      (Word.resolve_eq_ok_iff built known.tail.tail.head owned).2 value_named
    simp only [readPlain, subject_eq_ok_iff.2 is_output, Outcome.ok_bind, is_verb, if_true,
      declared, resolved]

theorem bracketEntries_shape (position : Nat) (words : List Word) :
    (bracketEntries position words).map (·.bracket) = words.map (·.bracket?) := by
  induction words generalizing position with
  | nil => rfl
  | cons word rest ih => exact congrArg (word.bracket? :: ·) (ih (position + 1))

/-- The words between the brackets of a bracketed conclusion contain no bracket. -/
theorem plain_shape (built : vocabulary.lexicon = .ok lexicon) {words : List Word}
    (known : lexicon.Describes words) {output index : Nat} {signature : Signature}
    {value : String} (declared : vocabulary.outputs[output]? = some signature)
    (named : signature.indexOf? value = some index)
    (tokens_eq : words.map (·.token) = [signature.name, Keyword.isWord.text, value]) :
    words.map (·.bracket?) = [none, none, none] := by
  have owned : vocabulary.signature? (.output output) = some signature := declared
  have plain : ∀ word ∈ words, word.bracket? = none := by
    intro word member
    refine (Word.bracket?_eq_none_iff built (known word member)).2 fun bracket => ?_
    have token_mem : word.token ∈ [signature.name, Keyword.isWord.text, value] := by
      rw [← tokens_eq]
      exact List.mem_map_of_mem member
    simp only [List.mem_cons, List.not_mem_nil, or_false] at token_mem
    rcases token_mem with same | same | same
    · rw [same]
      exact Vocabulary.name_ne_keyword built owned _
    · rw [same]
      intro is_bracket
      cases bracket <;> cases Keyword.text_injective is_bracket
    · rw [same]
      exact Vocabulary.value_ne_keyword built owned named _
  have three : words.length = 3 := by
    simpa using congrArg List.length tokens_eq
  rw [List.map_congr_left plain, List.map_const', three]
  rfl

theorem isEnclosed_iff (built : vocabulary.lexicon = .ok lexicon) {words : List Word}
    (known : lexicon.Describes words) :
    isEnclosed words = true ↔
      ∃ first inner last, words = first :: (inner ++ [last]) ∧
        first.token = Keyword.openBracket.text ∧ last.token = Keyword.closeBracket.text := by
  constructor
  · intro enclosed
    simp only [isEnclosed, Bool.and_eq_true, decide_eq_true_eq] at enclosed
    obtain ⟨long, opens, closes⟩ := enclosed
    cases words with
    | nil => cases opens
    | cons first tail =>
        rcases List.eq_nil_or_concat tail with rfl | ⟨inner, last, rfl⟩
        · simp at long
        · rw [List.concat_eq_append] at known closes ⊢
          have known_last : lexicon.find? last.token = some last.lexeme :=
            known.tail last (List.mem_append_right _ (List.mem_singleton_self last))
          rw [← List.cons_append, List.getLast?_concat] at closes
          exact ⟨first, inner, last, rfl, (Word.isKeyword_iff built known.head).1 opens,
            (Word.isKeyword_iff built known_last).1 closes⟩
  · rintro ⟨first, inner, last, rfl, opens, closes⟩
    have known_last : lexicon.find? last.token = some last.lexeme :=
      known.tail last (List.mem_append_right _ (List.mem_singleton_self last))
    have last_eq : (first :: (inner ++ [last])).getLast? = some last := by
      rw [← List.cons_append, List.getLast?_concat]
    have long : 2 ≤ (first :: (inner ++ [last])).length := by
      rw [List.length_cons, List.length_append, List.length_singleton]
      omega
    simp only [isEnclosed, last_eq, List.head?_cons, Option.any_some, long,
      (Word.isKeyword_iff built known.head).2 opens, (Word.isKeyword_iff built known_last).2 closes,
      decide_true, Bool.and_self]

theorem pairs_isOk_iff (position : Nat) (words : List Word) :
    (∃ table, Bracket.pairs none (bracketEntries position words) = .ok table) ↔
      Bracket.Admitted none 0 (words.map (·.bracket?)) := by
  rw [← bracketEntries_shape position]
  exact Bracket.matchFrom_isOk_iff none 0 [] _

theorem read_of_plain (built : vocabulary.lexicon = .ok lexicon) (position : Nat)
    {words : List Word} (known : lexicon.Describes words) {output index : Nat}
    {signature : Signature} {value : String}
    (declared : vocabulary.outputs[output]? = some signature)
    (named : signature.indexOf? value = some index)
    (tokens_eq : words.map (·.token) = [signature.name, Keyword.isWord.text, value]) :
    read vocabulary position words = readPlain vocabulary position words := by
  have shape := plain_shape built known declared named tokens_eq
  obtain ⟨table, matched⟩ := (pairs_isOk_iff position words).2 (shape ▸ rfl)
  have not_enclosed : isEnclosed words = false := by
    refine Bool.eq_false_iff.2 fun enclosed => ?_
    obtain ⟨first, inner, last, rfl, opens, _⟩ := (isEnclosed_iff built known).1 enclosed
    have owned : vocabulary.signature? (.output output) = some signature := declared
    refine Vocabulary.name_ne_keyword built owned .openBracket ?_
    rw [← opens]
    exact (List.cons.inj tokens_eq).1.symm
  simp only [read, matched, Outcome.ok_bind, not_enclosed, Bool.false_eq_true, if_false]

theorem read_of_bracketed (built : vocabulary.lexicon = .ok lexicon) (position : Nat)
    {first last : Word} {inner : List Word}
    (known : lexicon.Describes (first :: (inner ++ [last]))) {output index : Nat}
    {signature : Signature} {value : String}
    (declared : vocabulary.outputs[output]? = some signature)
    (named : signature.indexOf? value = some index)
    (opens : first.token = Keyword.openBracket.text)
    (inner_eq : inner.map (·.token) = [signature.name, Keyword.isWord.text, value])
    (closes : last.token = Keyword.closeBracket.text) :
    read vocabulary position (first :: (inner ++ [last])) =
      readPlain vocabulary (position + 1) inner := by
  have known_inner : lexicon.Describes inner := fun word member =>
    known.tail word (List.mem_append_left _ member)
  have known_last : lexicon.find? last.token = some last.lexeme :=
    known.tail last (List.mem_append_right _ (List.mem_singleton_self last))
  have opening : first.bracket? = some .opening :=
    (Word.bracket?_eq_some_iff built known.head).2 opens
  have closing : last.bracket? = some .closing :=
    (Word.bracket?_eq_some_iff built known_last).2 closes
  have shape : (first :: (inner ++ [last])).map (·.bracket?) =
      [some .opening, none, none, none, some .closing] := by
    rw [List.map_cons, List.map_append, List.map_singleton, opening, closing,
      plain_shape built known_inner declared named inner_eq]
    rfl
  have admitted :
      Bracket.Admitted none 0 [some .opening, none, none, none, some .closing] :=
    ⟨rfl, rfl⟩
  rw [← shape] at admitted
  obtain ⟨table, matched⟩ := (pairs_isOk_iff position _).2 admitted
  have enclosed := (isEnclosed_iff built known).2 ⟨first, inner, last, rfl, opens, closes⟩
  simp only [read, matched, Outcome.ok_bind, enclosed, if_true, List.tail_cons,
    List.dropLast_concat]

/-- A conclusion is read exactly if its tokens spell it. -/
theorem read_eq_ok_iff (built : vocabulary.lexicon = .ok lexicon) (position : Nat)
    {words : List Word} (known : lexicon.Describes words) {conclusion : Conclusion} :
    read vocabulary position words = .ok conclusion ↔
      Grammar.Concluding vocabulary (words.map (·.token)) conclusion := by
  have inside {first last : Word} {inner : List Word}
      (described : lexicon.Describes (first :: (inner ++ [last]))) : lexicon.Describes inner :=
    fun word member => described.tail word (List.mem_append_left _ member)
  constructor
  · intro readAll
    obtain ⟨_, _, readRest⟩ := Outcome.bind_eq_ok_iff.1 readAll
    split at readRest
    · rename_i enclosed
      obtain ⟨first, inner, last, rfl, opens, closes⟩ := (isEnclosed_iff built known).1 enclosed
      rw [List.tail_cons, List.dropLast_concat] at readRest
      obtain ⟨output, signature, value, index, declared, named, tokens_eq, rfl⟩ :=
        (readPlain_eq_ok_iff built _ (inside known)).1 readRest
      rw [List.map_cons, List.map_append, tokens_eq, List.map_singleton, opens, closes]
      exact .bracketed declared named
    · obtain ⟨output, signature, value, index, declared, named, tokens_eq, rfl⟩ :=
        (readPlain_eq_ok_iff built _ known).1 readRest
      rw [tokens_eq]
      exact .plain declared named
  · intro spelled
    generalize tokens_eq : words.map (·.token) = tokens at spelled
    cases spelled with
    | plain declared named =>
        rw [read_of_plain built position known declared named tokens_eq]
        exact (readPlain_eq_ok_iff built position known).2
          ⟨_, _, _, _, declared, named, tokens_eq, rfl⟩
    | @bracketed output signature value index declared named =>
        obtain ⟨first, tail, rfl, opens, tail_eq⟩ := List.map_eq_cons_iff.1 tokens_eq
        have parts : tail.map (·.token) =
            [signature.name, Keyword.isWord.text, value] ++ [Keyword.closeBracket.text] := tail_eq
        obtain ⟨inner, ending, rfl, inner_eq, ending_eq⟩ := List.map_eq_append_iff.1 parts
        obtain ⟨last, rfl, closes⟩ := List.map_eq_singleton_iff.1 ending_eq
        rw [read_of_bracketed built position known declared named opens inner_eq closes]
        exact (readPlain_eq_ok_iff built (position + 1) (inside known)).2
          ⟨_, _, _, _, declared, named, inner_eq, rfl⟩

end Conclusion

/-! ## Every token of a statement is known -/

namespace Grammar

theorem Leaf.known (built : vocabulary.lexicon = .ok lexicon) {tokens : List String}
    {proposition : Proposition} (spelled : Leaf vocabulary tokens proposition) :
    ∀ token ∈ tokens, ∃ lexeme, lexicon.find? token = some lexeme := by
  intro token member
  rcases spelled.mem_cases member with ⟨keyword, _, rfl⟩ | ⟨signature, declared, rfl | value⟩
  · exact ⟨_, Vocabulary.find?_keyword built keyword⟩
  · have owned : vocabulary.signature? (.input proposition.input) = some signature := declared
    exact ⟨_, Vocabulary.find?_name built owned⟩
  · have owned : vocabulary.signature? (.input proposition.input) = some signature := declared
    exact Vocabulary.find?_value built owned value

theorem known_of_itemized (built : vocabulary.lexicon = .ok lexicon) {tokens : List String}
    {items : List Item} (cut : Itemized vocabulary tokens items) :
    ∀ token ∈ tokens, ∃ lexeme, lexicon.find? token = some lexeme := by
  have keyword {own : Keyword} {more : List String}
      (later : ∀ token ∈ more, ∃ lexeme, lexicon.find? token = some lexeme) :
      ∀ token ∈ own.text :: more, ∃ lexeme, lexicon.find? token = some lexeme := by
    intro token member
    rcases List.mem_cons.1 member with rfl | rest
    · exact ⟨_, Vocabulary.find?_keyword built own⟩
    · exact later token rest
  induction cut with
  | nil => exact fun _ member => nomatch member
  | leaf spelled rest ih =>
      intro token member
      rcases List.mem_append.1 member with inside | later
      · exact spelled.known built token inside
      · exact ih token later
  | bracket bracket rest ih => exact keyword ih
  | connective connective rest ih => exact keyword ih

theorem Concluding.known (built : vocabulary.lexicon = .ok lexicon) {tokens : List String}
    {conclusion : Conclusion} (concludes : Concluding vocabulary tokens conclusion) :
    ∀ token ∈ tokens, ∃ lexeme, lexicon.find? token = some lexeme := by
  have keyword (own : Keyword) := Vocabulary.find?_keyword built own
  cases concludes with
  | @plain output signature value index declared named
  | @bracketed output signature value index declared named =>
      have owned : vocabulary.signature? (.output output) = some signature := declared
      have name_known := Vocabulary.find?_name built owned
      have value_known := Vocabulary.find?_value built owned named
      simp [keyword, name_known, value_known]

theorem Spells.known (built : vocabulary.lexicon = .ok lexicon) {tokens : List String}
    {statement : Statement} (spelled : Spells vocabulary tokens statement) :
    ∀ token ∈ tokens, ∃ lexeme, lexicon.find? token = some lexeme := by
  cases spelled with
  | rule holds unambiguous nested concludes =>
      obtain ⟨items, cut, _⟩ := holds.itemized built (nestedFrom_zero_iff.2 nested)
      intro token member
      rcases List.mem_cons.1 member with rfl | rest
      · exact ⟨_, Vocabulary.find?_keyword built .ifWord⟩
      · rcases List.mem_append.1 rest with inside | after
        · exact known_of_itemized built cut token inside
        · rcases List.mem_cons.1 after with rfl | later
          · exact ⟨_, Vocabulary.find?_keyword built .thenWord⟩
          · exact concludes.known built token later

end Grammar

/-! ## Rule texts -/

namespace Vocabulary

theorem thenPosition?_eq_some_iff {words : List Word} {stop : Nat} :
    thenPosition? words = some stop ↔
      ∃ before turn after, words = before ++ turn :: after ∧ before.length = stop ∧
        turn.isKeyword .thenWord = true ∧ ∀ word ∈ before, word.isKeyword .thenWord = false := by
  unfold thenPosition?
  induction words generalizing stop with
  | nil => simp
  | cons first rest ih =>
      rw [List.findIdx?_cons]
      constructor
      · intro found
        split at found
        · rename_i turns
          cases found
          exact ⟨[], first, rest, rfl, rfl, turns, fun _ member => nomatch member⟩
        · rename_i stays
          obtain ⟨earlier, foundRest, rfl⟩ := Option.map_eq_some_iff.1 found
          obtain ⟨before, turn, after, rfl, rfl, turns, stay⟩ := ih.1 foundRest
          refine ⟨first :: before, turn, after, rfl, rfl, turns, fun word member => ?_⟩
          rcases List.mem_cons.1 member with rfl | later
          · exact Bool.eq_false_iff.2 stays
          · exact stay word later
      · rintro ⟨before, turn, after, words_eq, rfl, turns, stay⟩
        cases before with
        | nil =>
            obtain ⟨rfl, rfl⟩ := List.cons.inj words_eq
            rw [if_pos turns, List.length_nil]
        | cons head before =>
            obtain ⟨rfl, rfl⟩ := List.cons.inj words_eq
            have stays := stay first List.mem_cons_self
            have foundRest := ih.2 ⟨before, turn, after, rfl, rfl, turns, fun word member =>
              stay word (List.mem_cons_of_mem _ member)⟩
            rw [if_neg (Bool.eq_false_iff.1 stays), foundRest]
            rfl

/-- A premise is read exactly if its tokens are a condition that does not nest too deep. -/
theorem readPremise_eq_ok_iff (built : vocabulary.lexicon = .ok lexicon) (position stop : Nat)
    {words : List Word} (known : lexicon.Describes words) {condition : Condition} :
    (∃ items premise, readItems vocabulary position words = .ok items ∧
      Premise.ofItems items stop = .ok premise ∧ premise.condition = .ok condition) ↔
    Grammar.Whole vocabulary (words.map (·.token)) condition ∧
      Grammar.NestedWithin maxNesting (words.map (·.token)) := by
  constructor
  · rintro ⟨items, premise, readAll, matched, derives⟩
    have cut := itemized_of_readItems built known readAll
    obtain ⟨limit, derived⟩ := Tree.whole_of_condition matched derives
    have admitted := (Premise.ofItems_isOk_iff items stop).1 ⟨premise, matched⟩
    exact ⟨Grammar.whole_of_itemized cut derived, Grammar.nestedFrom_zero_iff.1
      (Grammar.nestedFrom_of_admitted built cut admitted (Nat.zero_le _))⟩
  · rintro ⟨holds, nested⟩
    obtain ⟨items, cut, derived⟩ :=
      holds.itemized built (Grammar.nestedFrom_zero_iff.2 nested)
    obtain ⟨placed, readAll, rfl⟩ := readItems_of_itemized built position cut known rfl
    obtain ⟨premise, matched, derives⟩ := derived.condition_eq stop
    exact ⟨placed, premise, readAll, matched, derives⟩

/-- With `if` in front and a first `then`, the premise and the conclusion are read in turn. -/
theorem readWords_parts {first turn : Word} {inside after : List Word}
    (starts : first.isKeyword .ifWord = true)
    (found : thenPosition? (first :: (inside ++ turn :: after)) = some (inside.length + 1)) :
    vocabulary.readWords (first :: (inside ++ turn :: after)) = (do
      let items ← readItems vocabulary 1 inside
      let premise ← Premise.ofItems items (inside.length + 1)
      let condition ← premise.condition
      let conclusion ← Conclusion.read vocabulary (inside.length + 2) after
      .ok ⟨condition, conclusion⟩) := by
  have taken : ((first :: (inside ++ turn :: after)).take (inside.length + 1)).drop 1 = inside := by
    rw [List.take_succ_cons, List.drop_one, List.tail_cons, List.take_left]
  have dropped : (first :: (inside ++ turn :: after)).drop (inside.length + 2) = after := by
    rw [List.drop_succ_cons, List.drop_length_add_append, List.drop_succ_cons, List.drop_zero]
  unfold readWords
  simp only [List.head?_cons, Option.any_some, starts, Bool.not_true, Bool.false_eq_true, if_false,
    found, taken, dropped]

theorem readWords_split {first turn : Word} {inside after : List Word} {statement : Statement}
    (starts : first.isKeyword .ifWord = true)
    (found : thenPosition? (first :: (inside ++ turn :: after)) = some (inside.length + 1)) :
    vocabulary.readWords (first :: (inside ++ turn :: after)) = .ok statement ↔
      (∃ items premise, readItems vocabulary 1 inside = .ok items ∧
        Premise.ofItems items (inside.length + 1) = .ok premise ∧
        premise.condition = .ok statement.condition) ∧
      Conclusion.read vocabulary (inside.length + 2) after = .ok statement.conclusion := by
  simp only [readWords_parts starts found, Outcome.bind_eq_ok_iff, Except.ok.injEq]
  constructor
  · rintro ⟨items, readAll, premise, matched, condition, derives, conclusion, concludes, rfl⟩
    exact ⟨⟨items, premise, readAll, matched, derives⟩, concludes⟩
  · rintro ⟨⟨items, premise, readAll, matched, derives⟩, concludes⟩
    exact ⟨items, readAll, premise, matched, _, derives, _, concludes, rfl⟩

theorem describes_parts {first turn : Word} {inside after : List Word}
    (known : lexicon.Describes (first :: (inside ++ turn :: after))) :
    lexicon.Describes inside ∧ lexicon.find? turn.token = some turn.lexeme ∧
      lexicon.Describes after :=
  ⟨fun word member => known.tail word (List.mem_append_left _ member),
    known.tail turn (List.mem_append_right _ List.mem_cons_self),
    fun word member => known.tail word (List.mem_append_right _ (List.mem_cons_of_mem _ member))⟩

/-- Words that are read spell what they are read as. -/
theorem spells_of_readWords (built : vocabulary.lexicon = .ok lexicon) {words : List Word}
    (known : lexicon.Describes words) {statement : Statement}
    (readAll : vocabulary.readWords words = .ok statement) :
    Grammar.Spells vocabulary (words.map (·.token)) statement := by
  have starts : words.head?.any (·.isKeyword .ifWord) = true := by
    cases starts : words.head?.any (·.isKeyword .ifWord) with
    | true => rfl
    | false => simp [readWords, starts] at readAll
  cases found : thenPosition? words with
  | none => simp [readWords, starts, found] at readAll
  | some stop =>
      obtain ⟨before, turn, after, rfl, rfl, turns, stay⟩ := thenPosition?_eq_some_iff.1 found
      cases before with
      | nil =>
          -- one word cannot be both `if` and `then`
          have is_if : turn.isKeyword .ifWord = true := starts
          have text_eq := (Word.isKeyword_iff built known.head).1 is_if
          rw [(Word.isKeyword_iff built known.head).1 turns] at text_eq
          cases Keyword.text_injective text_eq
      | cons first inside =>
          have is_if : first.isKeyword .ifWord = true := starts
          rw [List.cons_append] at known readAll found ⊢
          obtain ⟨known_inside, known_turn, known_after⟩ := describes_parts known
          obtain ⟨premised, concludes⟩ := (readWords_split is_if found).1 readAll
          obtain ⟨holds, nested⟩ := (readPremise_eq_ok_iff built _ _ known_inside).1 premised
          have unambiguous : Keyword.thenWord.text ∉ inside.map (·.token) := by
            intro member
            obtain ⟨word, word_mem, token_eq⟩ := List.mem_map.1 member
            have turns_there :=
              (Word.isKeyword_iff built (known_inside word word_mem)).2 token_eq
            rw [stay word (List.mem_cons_of_mem _ word_mem)] at turns_there
            cases turns_there
          rw [List.map_cons, List.map_append, List.map_cons,
            (Word.isKeyword_iff built known.head).1 is_if,
            (Word.isKeyword_iff built known_turn).1 turns]
          exact .rule holds unambiguous nested
            ((Conclusion.read_eq_ok_iff built _ known_after).1 concludes)

/-- The words of a text fall into the parts that its tokens fall into. -/
theorem exists_parts (built : vocabulary.lexicon = .ok lexicon) {words : List Word}
    (known : lexicon.Describes words) {premise concluding : List String}
    (tokens_eq : words.map (·.token) =
      Keyword.ifWord.text :: (premise ++ Keyword.thenWord.text :: concluding))
    (unambiguous : Keyword.thenWord.text ∉ premise) :
    ∃ first inside turn after, words = first :: (inside ++ turn :: after) ∧
      inside.map (·.token) = premise ∧ after.map (·.token) = concluding ∧
      first.isKeyword .ifWord = true ∧ thenPosition? words = some (inside.length + 1) := by
  obtain ⟨first, tail, rfl, first_eq, tail_eq⟩ := List.map_eq_cons_iff.1 tokens_eq
  obtain ⟨inside, rest, rfl, rfl, rest_eq⟩ := List.map_eq_append_iff.1 tail_eq
  obtain ⟨turn, after, rfl, turn_eq, rfl⟩ := List.map_eq_cons_iff.1 rest_eq
  obtain ⟨known_inside, known_turn, _⟩ := describes_parts known
  have turns := (Word.isKeyword_iff built known_turn).2 turn_eq
  have stay : ∀ word ∈ first :: inside, word.isKeyword .thenWord = false := by
    intro word member
    refine Bool.eq_false_iff.2 fun turns_there => ?_
    rcases List.mem_cons.1 member with rfl | later
    · have text_eq := (Word.isKeyword_iff built known.head).1 turns_there
      rw [first_eq] at text_eq
      cases Keyword.text_injective text_eq
    · have text_eq := (Word.isKeyword_iff built (known_inside word later)).1 turns_there
      exact unambiguous (text_eq ▸ List.mem_map_of_mem later)
  exact ⟨first, inside, turn, after, rfl, rfl, rfl,
    (Word.isKeyword_iff built known.head).2 first_eq,
    thenPosition?_eq_some_iff.2 ⟨first :: inside, turn, after, rfl, rfl, turns, stay⟩⟩

/-- Words that spell a statement are read as that statement. -/
theorem readWords_of_spells (built : vocabulary.lexicon = .ok lexicon) {words : List Word}
    (known : lexicon.Describes words) {statement : Statement}
    (spelled : Grammar.Spells vocabulary (words.map (·.token)) statement) :
    vocabulary.readWords words = .ok statement := by
  generalize tokens_eq : words.map (·.token) = tokens at spelled
  cases spelled with
  | rule holds unambiguous nested concludes =>
      obtain ⟨first, inside, turn, after, rfl, rfl, rfl, starts, found⟩ :=
        exists_parts built known tokens_eq unambiguous
      obtain ⟨known_inside, _, known_after⟩ := describes_parts known
      exact (readWords_split starts found).2
        ⟨(readPremise_eq_ok_iff built _ _ known_inside).2 ⟨holds, nested⟩,
          (Conclusion.read_eq_ok_iff built _ known_after).2 concludes⟩

/-- A text is read exactly if its tokens spell a statement, and as that statement. -/
theorem readText_eq_ok_iff (built : vocabulary.lexicon = .ok lexicon) {text : String}
    {statement : Statement} :
    vocabulary.readText lexicon text = .ok statement ↔
      Grammar.Spells vocabulary (tokenize text) statement := by
  unfold readText
  rw [Outcome.bind_eq_ok_iff]
  constructor
  · rintro ⟨words, cut, readAll⟩
    obtain ⟨tokens_eq, known⟩ := Lexicon.words_eq_ok_iff.1 cut
    rw [← tokens_eq]
    exact spells_of_readWords built known readAll
  · intro spelled
    obtain ⟨words, tokens_eq, known⟩ := Lexicon.exists_describes (spelled.known built)
    refine ⟨words, Lexicon.words_eq_ok_iff.2 ⟨tokens_eq, known⟩, ?_⟩
    rw [← tokens_eq] at spelled
    exact readWords_of_spells built known spelled

theorem parse_eq_ok_iff (built : vocabulary.lexicon = .ok lexicon) {text : String}
    {statement : Statement} :
    vocabulary.parse text = .ok statement ↔
      Grammar.Spells vocabulary (tokenize text) statement := by
  rw [← readText_eq_ok_iff built, parse, built, Outcome.ok_bind]

end Vocabulary

end FuzzyControl
