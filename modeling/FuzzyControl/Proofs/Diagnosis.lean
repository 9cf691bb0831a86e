import FuzzyControl.Proofs.Fault
import FuzzyControl.Proofs.Nesting
import FuzzyControl.Proofs.Totality

/-!
# Diagnosis of brackets

The scan for brackets finds a fault exactly if the tokens have one, and it is that fault.  This
holds for the words of a conclusion and for the items of a premise, each of which may stand for
several tokens.  Nothing else in a rule text is reported as a fault of its brackets.
-/

namespace FuzzyControl

namespace Grammar

variable {limit : Option Nat} {start : Nat}

/-- The entries hold exactly the brackets among tokens, each at its position. -/
inductive Marks : Nat → List String → List BracketEntry → Prop where
  | nil {position : Nat} : Marks position [] []
  | skip {position : Nat} {token : String} {rest : List String} {entries : List BracketEntry}
      (plain : ∀ bracket : Bracket, token ≠ bracket.keyword.text)
      (later : Marks (position + 1) rest entries) : Marks position (token :: rest) entries
  | other {position own : Nat} {tokens : List String} {entries : List BracketEntry}
      (later : Marks position tokens entries) : Marks position tokens (⟨own, none⟩ :: entries)
  | bracket {position : Nat} {rest : List String} {entries : List BracketEntry}
      (bracket : Bracket) (later : Marks (position + 1) rest entries) :
      Marks position (bracket.keyword.text :: rest) (⟨position, some bracket⟩ :: entries)

/-- The pending brackets are those that tokens leave open, the rightmost of them first. -/
def Awaits (start : Nat) : List Bracket.Pending → List String → Prop
  | [], tokens => Balanced tokens
  | innermost :: outer, tokens => ∃ before after,
      tokens = before ++ Keyword.openBracket.text :: after ∧ Balanced after ∧
        innermost.position = start + before.length ∧ Awaits start outer before

theorem Awaits.append {pending : List Bracket.Pending} {tokens more : List String}
    (awaits : Awaits start pending tokens) (balanced : Balanced more) :
    Awaits start pending (tokens ++ more) := by
  cases pending with
  | nil => exact Balanced.append awaits balanced
  | cons innermost outer =>
      obtain ⟨before, after, rfl, inner, position_eq, rest⟩ := awaits
      exact ⟨before, after ++ more, by rw [List.append_assoc, List.cons_append],
        inner.append balanced, position_eq, rest⟩

theorem Awaits.openAfter_eq {pending : List Bracket.Pending} {tokens : List String}
    (awaits : Awaits start pending tokens) : openAfter tokens = pending.length := by
  induction pending generalizing tokens with
  | nil => exact awaits.2
  | cons innermost outer ih =>
      obtain ⟨before, after, rfl, inner, _, rest⟩ := awaits
      rw [openAfter_append, openAfter_cons, openAfter_opening, ih rest, inner.2, List.length_cons]
      omega

/-- A closing bracket closes the rightmost of the brackets that are open. -/
theorem Awaits.close {innermost : Bracket.Pending} {outer : List Bracket.Pending}
    {tokens : List String} (awaits : Awaits start (innermost :: outer) tokens) :
    Awaits start outer (tokens ++ [Keyword.closeBracket.text]) := by
  obtain ⟨before, after, rfl, inner, _, rest⟩ := awaits
  have closed := rest.append inner.enclosed
  rwa [← List.cons_append, ← List.append_assoc] at closed

/-- A scan succeeds on balanced tokens, and fails for the fault that the tokens have. -/
def Verdict {α : Type} (limit : Option Nat) (start : Nat) (tokens : List String) :
    Except LanguageError α → Prop
  | .ok _ => Sound limit tokens ∧ openAfter tokens = 0
  | .error cause => BracketFault limit start tokens cause

theorem Verdict.map {α β : Type} {tokens : List String} {outcome : Except LanguageError α}
    (verdict : Verdict limit start tokens outcome) (change : α → β) :
    Verdict limit start tokens (outcome.map change) := by
  cases outcome with
  | ok value => exact verdict
  | error cause => exact verdict

theorem verdict_of_matchFrom {before rest : List String} {entries : List BracketEntry}
    {position : Nat} (marks : Marks position rest entries)
    (position_eq : position = start + before.length) (sound : Sound limit before)
    {pending : List Bracket.Pending} (awaits : Awaits start pending before) (index : Nat) :
    Verdict limit start (before ++ rest) (Bracket.matchFrom limit index pending entries) := by
  induction marks generalizing before pending index with
  | nil =>
      rw [List.append_nil]
      cases pending with
      | nil => exact ⟨sound, awaits.2⟩
      | cons innermost outer =>
          obtain ⟨earlier, after, rfl, inner, own, _⟩ := awaits
          rw [Bracket.matchFrom, own]
          exact .unclosed rfl sound inner
  | @skip position token rest entries plain later ih =>
      have neutral := Balanced.of_not_bracket plain
      have longer : Sound limit (before ++ [token]) := by
        refine sound.snoc_of_le ?_ (Int.le_of_eq neutral.2)
        rw [neutral.2, Int.add_zero]
        exact sound.openAfter_nonneg
      have verdict := ih (by rw [position_eq, List.length_append]; rfl) longer
        (awaits.append neutral) index
      rwa [List.append_assoc] at verdict
  | other later ih => exact ih position_eq sound awaits (index + 1)
  | @bracket position rest entries bracket later ih =>
      have next_eq : position + 1 = start + (before ++ [bracket.keyword.text]).length := by
        rw [position_eq, List.length_append]
        rfl
      have reassoc : before ++ bracket.keyword.text :: rest =
          before ++ [bracket.keyword.text] ++ rest := by
        rw [List.append_assoc, List.singleton_append]
      have open_eq := awaits.openAfter_eq
      cases bracket with
      | opening =>
          simp only [Bracket.matchFrom]
          cases beyond : Bracket.exceeded? limit (pending.length + 1) with
          | some bound =>
              obtain ⟨limited, less⟩ := Option.filter_eq_some_iff.1 beyond
              have le := sound.nested bound limited before List.prefix_rfl
              have full : openAfter before = bound := by
                have less_bound := of_decide_eq_true less
                omega
              rw [position_eq]
              exact .tooDeep limited rfl (limited ▸ sound) full
          | none =>
              have longer : Sound limit (before ++ [Keyword.openBracket.text]) := by
                refine sound.snoc ?_ fun bound limited => ?_
                · rw [openAfter_append, openAfter_opening, open_eq]
                  omega
                · have within := Option.filter_eq_none_iff.1 beyond bound limited
                  simp only [decide_eq_true_eq, Nat.not_lt] at within
                  rw [openAfter_append, openAfter_opening, open_eq]
                  omega
              have opened : Awaits start (⟨index, position⟩ :: pending)
                  (before ++ [Keyword.openBracket.text]) :=
                ⟨before, [], rfl, .nil, position_eq, awaits⟩
              rw [reassoc]
              exact ih next_eq longer opened (index + 1)
      | closing =>
          cases pending with
          | nil =>
              rw [position_eq]
              exact .unopened rfl sound open_eq
          | cons innermost outer =>
              have longer : Sound limit (before ++ [Keyword.closeBracket.text]) := by
                refine sound.snoc_of_le ?_ (by rw [openAfter_closing]; decide)
                rw [open_eq, openAfter_closing, List.length_cons]
                omega
              rw [reassoc]
              exact (ih next_eq longer awaits.close (index + 1)).map _

theorem verdict_of_pairs {tokens : List String} {entries : List BracketEntry}
    (marks : Marks start tokens entries) :
    Verdict limit start tokens (Bracket.pairs limit entries) := by
  have none_pending : Awaits start [] [] := Balanced.nil
  exact verdict_of_matchFrom marks rfl .nil none_pending 0

/-- The scan finds exactly the faults of brackets. -/
theorem pairs_eq_error_iff {tokens : List String} {entries : List BracketEntry}
    (marks : Marks start tokens entries) {cause : LanguageError} :
    Bracket.pairs limit entries = .error cause ↔ BracketFault limit start tokens cause := by
  have verdict : Verdict limit start tokens (Bracket.pairs limit entries) := verdict_of_pairs marks
  cases scanned : Bracket.pairs limit entries with
  | ok table =>
      rw [scanned] at verdict
      refine ⟨fun fails => (nomatch fails), fun fault => ?_⟩
      exact (BracketFault.not_balanced fault verdict.1 verdict.2).elim
  | error found =>
      rw [scanned] at verdict
      refine ⟨fun same => ?_, fun fault => congrArg Except.error (verdict.unique fault)⟩
      rw [← Except.error.inj same]
      exact verdict

theorem Marks.skips {position : Nat} {leaf rest : List String} {entries : List BracketEntry}
    (plain : ∀ token ∈ leaf, ∀ bracket : Bracket, token ≠ bracket.keyword.text)
    (later : Marks (position + leaf.length) rest entries) :
    Marks position (leaf ++ rest) entries := by
  induction leaf generalizing position with
  | nil => exact later
  | cons token more ih =>
      obtain ⟨plain_token, plain_more⟩ := List.forall_mem_cons.1 plain
      rw [List.length_cons, Nat.add_comm more.length, ← Nat.add_assoc] at later
      exact .skip plain_token (ih plain_more later)

/-- Any tokens can be scanned. -/
theorem exists_marks (position : Nat) (tokens : List String) :
    ∃ entries, Marks position tokens entries := by
  induction tokens generalizing position with
  | nil => exact ⟨[], .nil⟩
  | cons token rest ih =>
      obtain ⟨entries, later⟩ := ih (position + 1)
      by_cases is_bracket : ∃ bracket : Bracket, token = bracket.keyword.text
      · obtain ⟨bracket, rfl⟩ := is_bracket
        exact ⟨_, .bracket bracket later⟩
      · exact ⟨entries, .skip (fun bracket same => is_bracket ⟨bracket, same⟩) later⟩

/-- Tokens have a fault unless their brackets are balanced within the limit. -/
theorem exists_bracketFault_iff {tokens : List String} :
    (∃ cause, BracketFault limit start tokens cause) ↔
      ¬(Sound limit tokens ∧ openAfter tokens = 0) := by
  constructor
  · rintro ⟨cause, fault⟩ ⟨sound, closed⟩
    exact fault.not_balanced sound closed
  · intro unbalanced
    obtain ⟨entries, marks⟩ := exists_marks start tokens
    have verdict : Verdict limit start tokens (Bracket.pairs limit entries) :=
      verdict_of_pairs marks
    cases scanned : Bracket.pairs limit entries with
    | ok table =>
        rw [scanned] at verdict
        exact (unbalanced verdict).elim
    | error cause =>
        rw [scanned] at verdict
        exact ⟨cause, verdict⟩

section Vocabulary

variable {vocabulary : Vocabulary} {lexicon : Lexicon}

theorem marks_bracketEntries (built : vocabulary.lexicon = .ok lexicon) (position : Nat)
    {words : List Word} (known : lexicon.Describes words) :
    Marks position (words.map (·.token)) (bracketEntries position words) := by
  induction words generalizing position with
  | nil => exact .nil
  | cons word rest ih =>
      have later := ih (position + 1) known.tail
      rw [List.map_cons, Checked.bracketEntries_cons]
      cases own : word.bracket? with
      | none => exact .skip ((Word.bracket?_eq_none_iff built known.head).1 own) (.other later)
      | some bracket =>
          rw [(Word.bracket?_eq_some_iff built known.head).1 own]
          exact .bracket bracket later

/-- A leaf stands for several tokens, and none of them is a bracket. -/
theorem marks_of_readItems (built : vocabulary.lexicon = .ok lexicon) {position : Nat}
    {words : List Word} (known : lexicon.Describes words) {placed : List PlacedItem}
    (read : readItems vocabulary position words = .ok placed) :
    Marks position (words.map (·.token)) (placed.map (·.bracketEntry)) := by
  fun_induction readItems vocabulary position words generalizing placed with
  | case1 =>
      cases read
      exact .nil
  | case2 => cases read
  | case3 position word rest input lexeme reading leaf ih =>
      obtain ⟨later, found, rfl⟩ := Outcome.map_eq_ok_iff.1 read
      have is_input : lexicon.find? word.token = some (Owner.input input).lexeme := by
        rw [known.head, lexeme]
        rfl
      obtain ⟨signature, declared, named⟩ := (Vocabulary.find?_eq_owner_iff built).1 is_input
      obtain ⟨negated, hedge, term, index, more, tokens_eq, resolved, rfl⟩ :=
        (LeafReading.read_eq_ok_iff built declared position known.tail).1 leaf
      have inner := ih (fun other member => known.tail other (List.mem_of_mem_drop member)) found
      rw [List.map_drop, tokens_eq, drop_leaf] at inner
      rw [List.map_cons, List.map_cons, tokens_eq, named, ← leaf_append]
      have spelled : Leaf vocabulary _ ⟨input, index, negated, hedge⟩ :=
        .spelled negated hedge declared resolved
      have plain : ∀ token ∈ signature.name :: Keyword.isWord.text ::
          (negationTokens negated ++ hedgeTokens hedge ++ [term]),
          ∀ bracket : Bracket, token ≠ bracket.keyword.text := by
        intro token member bracket
        have apart := spelled.not_bracket built token member
        cases bracket with
        | opening => exact apart.1
        | closing => exact apart.2
      have length_eq : (signature.name :: Keyword.isWord.text ::
          (negationTokens negated ++ hedgeTokens hedge ++ [term])).length =
            3 + (negationTokens negated).length + (hedgeTokens hedge).length := by
        simp only [List.length_cons, List.length_append, List.length_nil]
        omega
      refine .skips plain (.other ?_)
      rw [length_eq]
      exact inner
  | case4 position word rest item found no_input ih =>
      obtain ⟨later, found_later, rfl⟩ := Outcome.map_eq_ok_iff.1 read
      have inner := ih known.tail found_later
      rw [List.map_cons, List.map_cons]
      rcases (Word.item?_eq_some_iff built known.head).1 found with
        ⟨bracket, rfl, token_eq⟩ | ⟨connective, rfl, token_eq⟩
      · rw [token_eq]
        exact .bracket bracket inner
      · refine .skip (fun bracket same => ?_) (.other inner)
        rw [token_eq] at same
        cases bracket <;> cases connective <;> cases Keyword.text_injective same
  | case5 => cases read

end Vocabulary

end Grammar

/-! ## Rule texts -/

def LanguageError.ConcernsBrackets : LanguageError → Prop
  | .unbalancedBrackets _ | .nestingTooDeep .. => True
  | _ => False

section Texts

variable {vocabulary : Vocabulary} {lexicon : Lexicon} {cause : LanguageError}

open Outcome

/-- A step that never blames brackets does not fail for them. -/
theorem ne_bracket_error {α : Type} {outcome : Except LanguageError α}
    (concerns : cause.ConcernsBrackets) (blames : Blames LanguageError.BesidesBrackets outcome) :
    outcome ≠ .error cause := by
  intro fails
  have besides := blames.of_error fails
  cases cause with
  | unbalancedBrackets _ | nestingTooDeep _ _ => exact besides
  | _ => exact concerns

/-- A conclusion is blamed for its brackets before anything else. -/
theorem Conclusion.read_eq_bracket_error_iff (built : vocabulary.lexicon = .ok lexicon)
    (concerns : cause.ConcernsBrackets) (position : Nat) {words : List Word}
    (known : lexicon.Describes words) :
    read vocabulary position words = .error cause ↔
      Grammar.BracketFault none position (words.map (·.token)) cause := by
  rw [← Grammar.pairs_eq_error_iff (Grammar.marks_bracketEntries built position known), read]
  cases Bracket.pairs none (bracketEntries position words) with
  | error found => rw [error_bind, Except.error.injEq, Except.error.injEq]
  | ok table =>
      refine ⟨fun fails => absurd fails (ne_bracket_error concerns ?_), fun fails => by cases fails⟩
      rw [ok_bind]
      split <;> exact blames_readPlain vocabulary _ _

theorem Premise.ofItems_eq_error_iff (built : vocabulary.lexicon = .ok lexicon) {position : Nat}
    {words : List Word} (known : lexicon.Describes words) {placed : List PlacedItem}
    (read : readItems vocabulary position words = .ok placed) (stop : Nat) :
    ofItems placed stop = .error cause ↔
      Grammar.BracketFault (some maxNesting) position (words.map (·.token)) cause := by
  rw [← Grammar.pairs_eq_error_iff (Grammar.marks_of_readItems built known read)]
  exact bind_ok_eq_error_iff

/-- A premise is blamed for its brackets before its tree is built, and a conclusion after that. -/
theorem Vocabulary.readParts_eq_error_iff (built : vocabulary.lexicon = .ok lexicon)
    (concerns : cause.ConcernsBrackets) {inside after : List Word}
    (known_inside : lexicon.Describes inside) (known_after : lexicon.Describes after)
    {placed : List PlacedItem} {position : Nat}
    (read : readItems vocabulary position inside = .ok placed) (stop later : Nat) :
    (do
      let premise ← Premise.ofItems placed stop
      let condition ← premise.condition
      let conclusion ← Conclusion.read vocabulary later after
      .ok (⟨condition, conclusion⟩ : Statement)) = .error cause ↔
    Grammar.BracketFault (some maxNesting) position (inside.map (·.token)) cause ∨
      (∃ condition, Grammar.Whole vocabulary (inside.map (·.token)) condition ∧
        Grammar.NestedWithin maxNesting (inside.map (·.token))) ∧
      Grammar.BracketFault none later (after.map (·.token)) cause := by
  have accepted : (∃ condition, Grammar.Whole vocabulary (inside.map (·.token)) condition ∧
      Grammar.NestedWithin maxNesting (inside.map (·.token))) ↔
      ∃ premise condition, Premise.ofItems placed stop = .ok premise ∧
        premise.condition = .ok condition := by
    constructor
    · rintro ⟨condition, derived⟩
      obtain ⟨items, premise, own, matched, builds⟩ :=
        (readPremise_eq_ok_iff built position stop known_inside).2 derived
      cases read.symm.trans own
      exact ⟨premise, condition, matched, builds⟩
    · rintro ⟨premise, condition, matched, builds⟩
      exact ⟨condition, (readPremise_eq_ok_iff built position stop known_inside).1
        ⟨placed, premise, read, matched, builds⟩⟩
  rw [← Premise.ofItems_eq_error_iff built known_inside read stop,
    ← Conclusion.read_eq_bracket_error_iff built concerns later known_after, accepted]
  cases Premise.ofItems placed stop with
  | error found => simp [error_bind]
  | ok premise =>
      rw [ok_bind]
      cases builds : premise.condition with
      | error found =>
          have blames : Blames LanguageError.BesidesBrackets premise.condition :=
            Premise.blames_build _ _ _
          have other := ne_bracket_error concerns blames
          rw [builds] at other
          rw [error_bind]
          refine ⟨fun same => (other (by rw [Except.error.inj same])).elim, ?_⟩
          rintro (fails | ⟨⟨_, condition, same, succeeds⟩, _⟩)
          · cases fails
          · cases same
            cases builds.symm.trans succeeds
      | ok condition =>
          rw [ok_bind, bind_ok_eq_error_iff]
          simp [builds]

end Texts

/--
Let a rule text have registered tokens only, with `if` in front, a first `then`, and a premise
that is cut into items.  Reading it fails for brackets exactly if its premise has a fault of
brackets, whatever else is wrong with it, or if its premise is accepted and its conclusion has
such a fault, there without a limit; and it fails with that fault.  There is such a fault unless
all brackets are balanced and nest within the limit, and no defect is ever met instead.
-/
theorem Vocabulary.bracket_faults_exact {vocabulary : Vocabulary} {lexicon : Lexicon}
    (built : vocabulary.lexicon = .ok lexicon) {text : String} {premise concluding : List String}
    (tokens_eq : tokenize text =
      Keyword.ifWord.text :: (premise ++ Keyword.thenWord.text :: concluding))
    (first_then : Keyword.thenWord.text ∉ premise)
    (registered : ∀ token ∈ tokenize text, ∃ lexeme, lexicon.find? token = some lexeme)
    (extracted : ∃ words items, lexicon.words premise = .ok words ∧
      readItems vocabulary 1 words = .ok items) :
    (∀ cause : LanguageError, cause.ConcernsBrackets →
      (vocabulary.readText lexicon text = .error cause ↔
        Grammar.BracketFault (some maxNesting) 1 premise cause ∨
          (∃ condition, Grammar.Whole vocabulary premise condition ∧
            Grammar.NestedWithin maxNesting premise) ∧
          Grammar.BracketFault none (premise.length + 2) concluding cause)) ∧
    (∀ limit start tokens, (∃ cause, Grammar.BracketFault limit start tokens cause) ↔
      ¬(Grammar.Sound limit tokens ∧ Grammar.openAfter tokens = 0)) ∧
    ∀ site, vocabulary.readText lexicon text ≠ .error (.defect site) := by
  obtain ⟨words, words_eq, known⟩ := Lexicon.exists_describes registered
  have found_words : lexicon.words (tokenize text) = .ok words :=
    Lexicon.words_eq_ok_iff.2 ⟨words_eq, known⟩
  refine ⟨fun cause concerns => ?_, fun _ _ _ => Grammar.exists_bracketFault_iff,
    (Checked.agrees_readText built text).outcome.2⟩
  obtain ⟨first, inside, turn, after, rfl, rfl, rfl, starts, found⟩ :=
    exists_parts built known (words_eq.trans tokens_eq) first_then
  obtain ⟨known_inside, _, known_after⟩ := describes_parts known
  obtain ⟨own, placed, own_eq, read⟩ := extracted
  have same : own = inside := by
    have inside_eq := Lexicon.words_eq_ok_iff.2 ⟨rfl, known_inside⟩
    exact Except.ok.inj (own_eq.symm.trans inside_eq)
  subst same
  rw [readText, found_words, Outcome.ok_bind, readWords_parts starts found, read, Outcome.ok_bind,
    List.length_map]
  exact readParts_eq_error_iff built concerns known_inside known_after read _ _

/-- A bracket that is never closed is reported, although connectives are mixed before it. -/
theorem RuleBase.tipping_unclosed :
    ∃ lexicon, tipping.vocabulary.lexicon = .ok lexicon ∧
      tipping.vocabulary.readText lexicon
          "if (food is bad) and food is good or (food is bad then tip is low" =
        .error (.unbalancedBrackets 11) := by
  obtain ⟨lexicon, built⟩ := tipping_lexicon
  have tokens_eq : tokenize "if (food is bad) and food is good or (food is bad then tip is low" =
      "if" :: (["(", "food", "is", "bad", ")", "and", "food", "is", "good", "or", "(", "food", "is",
        "bad"] ++ "then" :: ["tip", "is", "low"]) := by
    decide +kernel
  have bad : Grammar.Leaf tipping.vocabulary ["food", "is", "bad"] ⟨0, 0, false, none⟩ :=
    @Grammar.Leaf.spelled _ 0 ⟨"food", ["bad", "good"]⟩ "bad" 0 false none rfl rfl
  have good : Grammar.Leaf tipping.vocabulary ["food", "is", "good"] ⟨0, 1, false, none⟩ :=
    @Grammar.Leaf.spelled _ 0 ⟨"food", ["bad", "good"]⟩ "good" 1 false none rfl rfl
  have cut : Itemized tipping.vocabulary ["(", "food", "is", "bad", ")", "and", "food", "is",
      "good", "or", "(", "food", "is", "bad"] _ :=
    .bracket .opening (.leaf bad (.bracket .closing (.connective .and (.leaf good
      (.connective .or (.bracket .opening (.leaf bad .nil)))))))
  have concludes : Grammar.Concluding tipping.vocabulary ["tip", "is", "low"] ⟨0, 0, false⟩ :=
    @Grammar.Concluding.plain _ 0 ⟨"tip", ["low", "high"]⟩ "low" 0 rfl rfl
  have premise_known := Grammar.known_of_itemized built cut
  have registered : ∀ token ∈ tokenize
      "if (food is bad) and food is good or (food is bad then tip is low",
      ∃ lexeme, lexicon.find? token = some lexeme := by
    rw [tokens_eq]
    refine List.forall_mem_cons.2 ⟨⟨_, Vocabulary.find?_keyword built .ifWord⟩, ?_⟩
    refine List.forall_mem_append.2 ⟨premise_known, ?_⟩
    exact List.forall_mem_cons.2
      ⟨⟨_, Vocabulary.find?_keyword built .thenWord⟩, concludes.known built⟩
  obtain ⟨words, words_eq, known⟩ := Lexicon.exists_describes premise_known
  obtain ⟨placed, read, _⟩ := readItems_of_itemized built 1 cut known words_eq
  have fault : Grammar.BracketFault (some maxNesting) 1 ["(", "food", "is", "bad", ")", "and",
      "food", "is", "good", "or", "(", "food", "is", "bad"] (.unbalancedBrackets 11) :=
    @Grammar.BracketFault.unclosed _ _ _
      ["(", "food", "is", "bad", ")", "and", "food", "is", "good", "or"] ["food", "is", "bad"]
      rfl (by decide) (by decide)
  have exact_fault := (Vocabulary.bracket_faults_exact built tokens_eq (by decide) registered
    ⟨words, placed, Lexicon.words_eq_ok_iff.2 ⟨words_eq, known⟩, read⟩).1
  exact ⟨lexicon, built, (exact_fault (.unbalancedBrackets 11) trivial).2 (.inl fault)⟩

end FuzzyControl
