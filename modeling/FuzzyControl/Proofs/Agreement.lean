import Mathlib.Data.List.Basic
import FuzzyControl.Language.Checked
import FuzzyControl.Proofs.Reading

/-!
# Agreement of two readings

The checked reading goes by indices and may breach a check; the plain one goes by lists and may
meet a defect.  On the words of a text both do the same: they give the same leaves, items and
conclusions, or refuse the text for the same fault.
-/

namespace FuzzyControl

/-- The error says what is wrong with a text, and not that a table is defective. -/
def LanguageError.IsFault : LanguageError → Prop
  | .defect _ => False
  | _ => True

namespace Checked

/-- Both readings succeed with related results, or refuse the text for the same fault. -/
inductive Agrees {α β : Type} (related : α → β → Prop) :
    Except Halt α → Except LanguageError β → Prop where
  | done {value : α} {other : β} (holds : related value other) :
      Agrees related (.ok value) (.ok other)
  | refused {cause : LanguageError} (fault : cause.IsFault) :
      Agrees related (.error (.refused cause)) (.error cause)

namespace Agrees

variable {α β γ δ : Type} {related : α → β → Prop} {goal : γ → δ → Prop}
  {checked : Except Halt α} {plain : Except LanguageError β}

theorem bind (agrees : Agrees related checked plain) {next : α → Except Halt γ}
    {other : β → Except LanguageError δ}
    (later : ∀ value result, related value result → Agrees goal (next value) (other result)) :
    Agrees goal (checked >>= next) (plain >>= other) := by
  cases agrees with
  | done holds => exact later _ _ holds
  | refused fault => exact .refused fault

theorem map (agrees : Agrees related checked plain) {change : α → γ} {other : β → δ}
    (images : ∀ value result, related value result → goal (change value) (other result)) :
    Agrees goal (checked.map change) (plain.map other) := by
  cases agrees with
  | done holds => exact .done (images _ _ holds)
  | refused fault => exact .refused fault

theorem bind_map (agrees : Agrees related checked plain) {next : α → Except Halt γ} {change : β → δ}
    (images : ∀ value result, related value result →
      Agrees goal (next value) (.ok (change result))) :
    Agrees goal (checked >>= next) (plain.map change) := by
  cases agrees with
  | done holds => exact images _ _ holds
  | refused fault => exact .refused fault

/-- The plain reading may still change its result. -/
theorem map_right (agrees : Agrees related checked plain) {other : β → δ}
    {images : α → δ → Prop} (related_images : ∀ value result, plain = .ok result →
      related value result → images value (other result)) :
    Agrees images checked (plain.map other) := by
  cases agrees with
  | done holds => exact .done (related_images _ _ rfl holds)
  | refused fault => exact .refused fault

theorem of_ok {result : β} (agrees : Agrees related checked plain) (succeeds : plain = .ok result) :
    ∃ value, checked = .ok value ∧ related value result := by
  subst succeeds
  cases agrees with
  | done holds => exact ⟨_, rfl, holds⟩

theorem of_checked {value : α} (agrees : Agrees related checked plain)
    (succeeds : checked = .ok value) : ∃ result, plain = .ok result ∧ related value result := by
  subst succeeds
  cases agrees with
  | done holds => exact ⟨_, rfl, holds⟩

theorem of_error {cause : LanguageError} (agrees : Agrees related checked plain)
    (fails : plain = .error cause) : checked = .error (.refused cause) ∧ cause.IsFault := by
  subst fails
  cases agrees with
  | refused fault => exact ⟨rfl, fault⟩

theorem unbreached (agrees : Agrees related checked plain) (breach : Breach) :
    checked ≠ .error (.breach breach) := by
  cases agrees with
  | done holds => exact nofun
  | refused fault => exact nofun

/-- A reading that agrees comes out as the other one does, which meets no defect. -/
theorem outcome {checked : Except Halt α} {plain : Except LanguageError α}
    (agrees : Agrees Eq checked plain) :
    checked = plain.mapError .refused ∧ ∀ site, plain ≠ .error (.defect site) := by
  cases agrees with
  | done holds =>
      subst holds
      exact ⟨rfl, fun _ fails => nomatch fails⟩
  | refused fault =>
      refine ⟨rfl, fun site fails => ?_⟩
      cases fails
      exact fault

end Agrees

/-! ## Words in tables -/

def Table.ofWords (words : List Word) : Table :=
  ⟨words.map (·.token), words.map (·.lexeme)⟩

variable {vocabulary : Vocabulary} {words : List Word} {start stop index : Nat}

theorem lexeme_ofWords {word : Word} (here : words[index]? = some word) :
    (Table.ofWords words).lexeme index = .ok word.lexeme := by
  rw [Table.lexeme, Table.ofWords, List.getElem?_map, here]
  rfl

theorem token_ofWords {word : Word} (here : words[index]? = some word) :
    (Table.ofWords words).token index = .ok word.token := by
  rw [Table.token, Table.ofWords, List.getElem?_map, here]
  rfl

theorem unexpected_ofWords {α : Type} {word : Word} (here : words[index]? = some word) :
    (Table.ofWords words).unexpected (α := α) index =
      .error (.refused (.unexpectedToken word.token index)) := by
  rw [Table.unexpected, token_ofWords here]
  rfl

theorem subtract_of_le {position other : Nat} (le : other ≤ position) :
    subtract position other = .ok (position - other) :=
  if_pos le

/-- The words from `start` up to `stop`. -/
def Spans (words : List Word) (stop start : Nat) (rest : List Word) : Prop :=
  (words.take stop).drop start = rest

theorem Spans.cons {word : Word} {rest : List Word}
    (spans : Spans words stop start (word :: rest)) :
    start < stop ∧ words[start]? = some word ∧ Spans words stop (start + 1) rest := by
  have here : (words.take stop)[start]? = some word := by
    rw [← List.head?_drop, spans]
    rfl
  have less : start < stop := by
    have inside := (List.getElem?_eq_some_iff.1 here).1
    rw [List.length_take] at inside
    omega
  refine ⟨less, by rwa [List.getElem?_take_of_lt less] at here, ?_⟩
  rw [Spans, ← List.drop_drop, spans, List.drop_one, List.tail_cons]

theorem Spans.drop {rest : List Word} (spans : Spans words stop start rest) (count : Nat) :
    Spans words stop (start + count) (rest.drop count) := by
  rw [Spans, ← List.drop_drop, spans]

theorem Spans.length {rest : List Word} (spans : Spans words stop start rest)
    (fits : stop ≤ words.length) : rest.length = stop - start := by
  rw [← spans, length_drop_take fits]

theorem Spans.dropLast {rest : List Word} (spans : Spans words stop start rest)
    (fits : stop ≤ words.length) (less : start < stop) :
    Spans words (stop - 1) start rest.dropLast := by
  have shorter : min (start + (stop - start - 1)) stop = stop - 1 := by omega
  rw [List.dropLast_eq_take, spans.length fits, ← spans, List.take_drop, List.take_take, shorter]
  rfl

theorem Spans.nil (spans : Spans words stop start []) (fits : stop ≤ words.length) :
    stop ≤ start := by
  have length_eq := spans.length fits
  rw [List.length_nil] at length_eq
  omega

/-- Every variable that a word means is declared. -/
def Declared (vocabulary : Vocabulary) (words : List Word) : Prop :=
  ∀ word ∈ words, ∀ owner : Owner, word.lexeme = owner.lexeme →
    ∃ signature, vocabulary.signature? owner = some signature

theorem declared_of_lexicon {lexicon : Lexicon} (built : vocabulary.lexicon = .ok lexicon)
    (known : lexicon.Describes words) : Declared vocabulary words := by
  intro word member owner lexeme
  have meaning : lexicon.find? word.token = some owner.lexeme := by
    rw [known word member, lexeme]
  obtain ⟨signature, declared, _⟩ := (Vocabulary.find?_eq_owner_iff built).1 meaning
  exact ⟨signature, declared⟩

/-! ## Leaves -/

theorem agrees_resolve {word : Word} (here : words[index]? = some word) (owner : Owner)
    (ownerName : String) :
    Agrees Eq ((Table.ofWords words).resolve index owner ownerName)
      (word.resolve index owner ownerName) := by
  obtain ⟨token, lexeme⟩ := word
  rw [Table.resolve, lexeme_ofWords here, Outcome.ok_bind, Word.resolve]
  cases lexeme with
  | term candidates =>
      cases resolved : (Lexeme.term candidates).resolve? owner with
      | some value => simpa only [resolved] using .done rfl
      | none =>
          simp only [resolved, token_ofWords here, Outcome.ok_bind]
          exact .refused trivial
  | keyword _ | input _ | output _ =>
      simp only [unexpected_ofWords here]
      exact .refused trivial

section Leaves

variable {input length : Nat} {signature : Signature} {rest : List Word}

/-- The same leaf, which has words. -/
def SameLeaf (reading other : LeafReading) : Prop :=
  reading = other ∧ 0 < other.length

theorem agrees_leafTerm (fits : stop ≤ words.length)
    (declared : vocabulary.inputs[input]? = some signature) (negated : Bool)
    (hedge : Option Hedge) (spans : Spans words stop (start + length) rest) :
    Agrees SameLeaf
      ((Table.ofWords words).leafTerm vocabulary input start stop negated hedge (start + length))
      (LeafReading.finish vocabulary input start negated hedge length rest) := by
  cases rest with
  | nil =>
      rw [Table.leafTerm, if_pos (spans.nil fits), LeafReading.finish]
      exact .refused trivial
  | cons word more =>
      obtain ⟨less, here, -⟩ := spans.cons
      have length_eq : start + length + 1 - start = length + 1 := by omega
      rw [Table.leafTerm, if_neg (Nat.not_le_of_lt less), LeafReading.finish]
      simp only [declared, require, Outcome.ok_bind,
        subtract_of_le (by omega : start ≤ start + length + 1), length_eq]
      refine (agrees_resolve here (.input input) signature.name).bind_map fun term _ same => ?_
      exact .done ⟨by rw [same], Nat.succ_pos _⟩

theorem agrees_leafHedge (fits : stop ≤ words.length)
    (declared : vocabulary.inputs[input]? = some signature) (negated : Bool)
    (spans : Spans words stop (start + length) rest) :
    Agrees SameLeaf
      ((Table.ofWords words).leafHedge vocabulary input start stop negated (start + length))
      (LeafReading.afterNegation vocabulary input start negated length rest) := by
  unfold Table.leafHedge
  cases rest with
  | nil =>
      have beyond := spans.nil fits
      have nothing : ((Table.ofWords words).lexemes[start + length]?.filter
          fun _ => start + length < stop) = none := by
        simp [Nat.not_lt_of_le beyond]
      rw [nothing]
      exact agrees_leafTerm fits declared negated none spans
  | cons word more =>
      obtain ⟨less, here, later⟩ := spans.cons
      have found : ((Table.ofWords words).lexemes[start + length]?.filter
          fun _ => start + length < stop) = some word.lexeme := by
        rw [Table.ofWords, List.getElem?_map, here]
        simp [less]
      have same : word.hedge? = Table.hedge? word.lexeme := rfl
      rw [found, Option.bind_some, LeafReading.afterNegation, same]
      cases Table.hedge? word.lexeme with
      | some hedge =>
          have spans_term : Spans words stop (start + (length + 1)) more := later
          exact agrees_leafTerm fits declared negated (some hedge) spans_term
      | none => exact agrees_leafTerm fits declared negated none spans

/-- A leaf is read from the words after the name of its input. -/
theorem agrees_leaf (fits : stop ≤ words.length)
    (declared : vocabulary.inputs[input]? = some signature)
    (spans : Spans words stop (start + 1) rest) :
    Agrees SameLeaf ((Table.ofWords words).leaf vocabulary input start stop)
      (LeafReading.read vocabulary input start rest) := by
  cases rest with
  | nil =>
      rw [Table.leaf, if_pos (spans.nil fits), LeafReading.read]
      exact .refused trivial
  | cons verb later =>
      obtain ⟨less, here, spans_later⟩ := spans.cons
      rw [Table.leaf, if_neg (Nat.not_le_of_lt less), lexeme_ofWords here, Outcome.ok_bind]
      by_cases is_verb : verb.isKeyword .isWord = true
      · rw [if_pos (beq_iff_eq.1 is_verb)]
        cases later with
        | nil =>
            simp only [LeafReading.read, if_pos is_verb]
            rw [if_neg (Nat.not_lt_of_le (spans_later.nil fits))]
            exact agrees_leafHedge fits declared false spans_later
        | cons word more =>
            obtain ⟨goes_on, next, spans_more⟩ := spans_later.cons
            rw [if_pos goes_on, lexeme_ofWords next, Outcome.ok_bind]
            simp only [LeafReading.read, if_pos is_verb]
            by_cases is_not : word.isKeyword .notWord = true
            · rw [if_pos is_not, if_pos (beq_iff_eq.1 is_not)]
              exact agrees_leafHedge fits declared true spans_more
            · rw [if_neg is_not, if_neg fun same => is_not (beq_iff_eq.2 same)]
              exact agrees_leafHedge fits declared false spans_later
      · rw [if_neg fun same => is_verb (beq_iff_eq.2 same)]
        simp only [LeafReading.read, if_neg is_verb]
        exact .refused trivial

end Leaves

/-! ## Items -/

def place (placed : PlacedItem) : Nat × Item :=
  (placed.position, placed.item)

/-- The items are the same, and each stands where its token does. -/
def SameItems (words : List Word) (items : List (Nat × Item)) (placed : List PlacedItem) : Prop :=
  items = placed.map place ∧
    ∀ each ∈ placed, ∃ word, words[each.position]? = some word ∧ word.token = each.token

theorem SameItems.cons {items : List (Nat × Item)} {placed : List PlacedItem}
    (same : SameItems words items placed) {word : Word} (here : words[start]? = some word)
    (item : Item) :
    SameItems words ((start, item) :: items) (⟨start, word.token, item⟩ :: placed) := by
  obtain ⟨rfl, tokens⟩ := same
  exact ⟨rfl, List.forall_mem_cons.2 ⟨⟨word, here, rfl⟩, tokens⟩⟩

/-- Items are read one after another, and every leaf leads on. -/
theorem agrees_items (fits : stop ≤ words.length) (declared : Declared vocabulary words)
    {rest : List Word} (spans : Spans words stop start rest) :
    Agrees (SameItems words) ((Table.ofWords words).items vocabulary stop start)
      (readItems vocabulary start rest) := by
  have leaf_agrees {start input : Nat} {word : Word} {rest : List Word}
      (spans : Spans words stop start (word :: rest)) (lexeme : word.lexeme = .input input) :
      Agrees SameLeaf ((Table.ofWords words).leaf vocabulary input start stop)
        (LeafReading.read vocabulary input start rest) := by
    obtain ⟨_, here, later⟩ := spans.cons
    obtain ⟨signature, owned⟩ := declared word (List.mem_of_getElem? here) (.input input) lexeme
    exact agrees_leaf fits owned later
  fun_induction readItems vocabulary start rest with
  | case1 start =>
      rw [Table.items, if_neg (Nat.not_lt_of_le (spans.nil fits))]
      exact .done ⟨rfl, List.forall_mem_nil _⟩
  | case2 start word rest input lexeme cause fails =>
      obtain ⟨less, here, _⟩ := spans.cons
      obtain ⟨refuses, fault⟩ := (leaf_agrees spans lexeme).of_error fails
      rw [Table.items, if_pos less, lexeme_ofWords here, lexeme]
      simp only [refuses]
      exact .refused fault
  | case3 start word rest input lexeme reading read ih =>
      obtain ⟨less, here, later⟩ := spans.cons
      obtain ⟨own, succeeds, rfl, positive⟩ := (leaf_agrees spans lexeme).of_ok read
      have spans_rest := later.drop (own.length - 1)
      have next_eq : start + 1 + (own.length - 1) = start + own.length := by omega
      rw [next_eq] at spans_rest
      rw [Table.items, if_pos less, lexeme_ofWords here, lexeme]
      simp only [succeeds, if_pos positive]
      exact (ih spans_rest).map fun _ _ same => same.cons here _
  | case4 start word rest item found no_input ih =>
      obtain ⟨less, here, later⟩ := spans.cons
      have found_mark : Table.mark? word.lexeme = some item := found
      rw [Table.items, if_pos less, lexeme_ofWords here]
      split
      · rename_i own
        cases own
      · rename_i own
        exact absurd (Except.ok.inj own) (no_input _)
      · rename_i lexeme _ own
        cases own
        rw [found_mark]
        exact (ih later).map fun _ _ same => same.cons here _
  | case5 start word rest none_found no_input =>
      obtain ⟨less, here, _⟩ := spans.cons
      have no_mark : Table.mark? word.lexeme = none := none_found
      rw [Table.items, if_pos less, lexeme_ofWords here]
      split
      · rename_i own
        cases own
      · rename_i own
        exact absurd (Except.ok.inj own) (no_input _)
      · rename_i lexeme _ own
        cases own
        rw [no_mark, unexpected_ofWords here]
        exact .refused trivial

/-! ## Conclusions -/

theorem bracketEntries_cons (position : Nat) (word : Word) (rest : List Word) :
    bracketEntries position (word :: rest) =
      ⟨position, word.bracket?⟩ :: bracketEntries (position + 1) rest :=
  rfl

/-- Without a limit on nesting both scans find the same bracket without a partner. -/
theorem agrees_checkBrackets (fits : stop ≤ words.length) {rest : List Word}
    (spans : Spans words stop start rest) (index : Nat) (pending : List Bracket.Pending) :
    Agrees (fun _ _ => True)
      ((Table.ofWords words).checkBrackets stop start (pending.map (·.position)))
      (Bracket.matchFrom none index pending (bracketEntries start rest)) := by
  induction rest generalizing start index pending with
  | nil =>
      rw [Table.checkBrackets, if_neg (Nat.not_lt_of_le (spans.nil fits))]
      cases pending with
      | nil => exact .done trivial
      | cons innermost outer => exact .refused trivial
  | cons word more ih =>
      obtain ⟨less, here, later⟩ := spans.cons
      have same : Table.bracket? word.lexeme = word.bracket? := rfl
      rw [Table.checkBrackets, if_pos less, lexeme_ofWords here, bracketEntries_cons]
      simp only [same]
      cases word.bracket? with
      | none => exact ih later (index + 1) pending
      | some bracket =>
          cases bracket with
          | opening => exact ih later (index + 1) (⟨index, start⟩ :: pending)
          | closing =>
              cases pending with
              | nil => exact .refused trivial
              | cons innermost outer =>
                  exact (ih later (index + 1) outer).map_right fun _ _ _ _ => trivial

theorem isEnclosed_ofWords (fits : stop ≤ words.length) {rest : List Word}
    (spans : Spans words stop start rest) :
    (Table.ofWords words).isEnclosed start stop = .ok (Conclusion.isEnclosed rest) := by
  have length_eq := spans.length fits
  rw [Table.isEnclosed, Conclusion.isEnclosed]
  by_cases long : start + 2 ≤ stop
  · obtain ⟨first, tail, rfl⟩ : ∃ first tail, rest = first :: tail :=
      List.exists_cons_of_length_pos (by omega)
    obtain ⟨_, first_here, spans_tail⟩ := spans.cons
    rw [List.length_cons] at length_eq
    rcases List.eq_nil_or_concat tail with rfl | ⟨inner, last, rfl⟩
    · simp only [List.length_nil] at length_eq
      omega
    rw [List.concat_eq_append] at spans_tail length_eq ⊢
    rw [List.length_append, List.length_singleton] at length_eq
    have spans_last := spans_tail.drop inner.length
    have last_index : start + 1 + inner.length = stop - 1 := by omega
    rw [List.drop_left, last_index] at spans_last
    obtain ⟨_, last_here, _⟩ := spans_last.cons
    have last_eq : (first :: (inner ++ [last])).getLast? = some last := by
      rw [← List.cons_append, List.getLast?_concat]
    have long_rest : 2 ≤ (first :: (inner ++ [last])).length := by
      rw [List.length_cons, List.length_append, List.length_singleton]
      omega
    rw [if_pos long, lexeme_ofWords first_here, Outcome.ok_bind, decide_eq_true long_rest, last_eq]
    by_cases opens : first.lexeme = .keyword .openBracket
    · rw [if_pos opens, subtract_of_le (by omega : 1 ≤ stop), Outcome.ok_bind,
        lexeme_ofWords last_here, Outcome.ok_bind]
      simp [Word.isKeyword, opens, beq_eq_decide]
    · rw [if_neg opens]
      simp [Word.isKeyword, opens]
  · have short : ¬2 ≤ rest.length := by omega
    rw [if_neg long, decide_eq_false short]
    rfl

theorem agrees_subject {word : Word} (here : words[index]? = some word) :
    Agrees (fun key other => key = other ∧ word.lexeme = .output key)
      ((Table.ofWords words).subject index) (Conclusion.subject word) := by
  obtain ⟨token, lexeme⟩ := word
  rw [Table.subject, lexeme_ofWords here, Outcome.ok_bind, Conclusion.subject]
  cases lexeme with
  | output key => exact .done ⟨rfl, rfl⟩
  | input key | keyword _ | term _ =>
      simp only [token_ofWords here, Outcome.ok_bind]
      exact .refused trivial

theorem agrees_plainConclusion (fits : stop ≤ words.length) (le : start ≤ stop)
    (declared : Declared vocabulary words) {rest : List Word}
    (spans : Spans words stop start rest) :
    Agrees Eq ((Table.ofWords words).plainConclusion vocabulary start stop)
      (Conclusion.readPlain vocabulary start rest) := by
  have length_eq := spans.length fits
  rw [Table.plainConclusion, subtract_of_le le, Outcome.ok_bind, ← length_eq]
  unfold Conclusion.readPlain
  by_cases three : rest.length = 3
  · obtain ⟨output, verb, value, rfl⟩ := List.length_eq_three.1 three
    obtain ⟨_, here, spans_verb⟩ := spans.cons
    obtain ⟨_, verb_here, spans_value⟩ := spans_verb.cons
    obtain ⟨_, value_here, _⟩ := spans_value.cons
    rw [if_pos three]
    refine (agrees_subject here).bind fun key other same => ?_
    obtain ⟨rfl, lexeme⟩ := same
    obtain ⟨signature, owned⟩ := declared output (List.mem_of_getElem? here) (.output key) lexeme
    have found : vocabulary.outputs[key]? = some signature := owned
    rw [lexeme_ofWords verb_here, Outcome.ok_bind]
    by_cases is_verb : verb.isKeyword .isWord = true
    · rw [if_pos is_verb, if_pos (beq_iff_eq.1 is_verb)]
      simp only [found, require, Outcome.ok_bind]
      exact (agrees_resolve value_here (.output key) signature.name).bind fun _ _ same =>
        .done (by rw [same])
    · rw [if_neg is_verb, if_neg fun same => is_verb (beq_iff_eq.2 same)]
      exact .refused trivial
  · rw [if_neg three]
    split
    · exact absurd rfl three
    · exact .refused trivial

/-- The conclusion is what stands after `then`, with or without brackets around it. -/
theorem agrees_conclusion (le : start ≤ words.length) (declared : Declared vocabulary words) :
    Agrees Eq ((Table.ofWords words).conclusion vocabulary start words.length)
      (Conclusion.read vocabulary start (words.drop start)) := by
  have spans : Spans words words.length start (words.drop start) := by
    rw [Spans, List.take_length]
  refine (agrees_checkBrackets (Nat.le_refl _) spans 0 []).bind fun _ _ _ => ?_
  rw [isEnclosed_ofWords (Nat.le_refl _) spans, Outcome.ok_bind]
  cases enclosed : Conclusion.isEnclosed (words.drop start) with
  | false => exact agrees_plainConclusion (Nat.le_refl _) le declared spans
  | true =>
      have long : 2 ≤ (words.drop start).length := by
        simp only [Conclusion.isEnclosed, Bool.and_eq_true, decide_eq_true_eq] at enclosed
        exact enclosed.1
      rw [List.length_drop] at long
      have spans_inner : Spans words (words.length - 1) (start + 1)
          (words.drop start).tail.dropLast := by
        rw [← List.drop_one]
        exact (spans.drop 1).dropLast (Nat.le_refl _) (by omega)
      rw [subtract_of_le (by omega : 1 ≤ words.length), Outcome.ok_bind]
      exact agrees_plainConclusion (Nat.sub_le _ _) (by omega) declared spans_inner

end Checked

end FuzzyControl
