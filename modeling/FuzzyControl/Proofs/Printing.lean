import FuzzyControl.Language.Printer
import FuzzyControl.Proofs.Naming
import FuzzyControl.Proofs.RuleText
import FuzzyControl.Proofs.Tokens
import Mathlib.Data.List.Forall2

/-!
# Printed rules are read back

Over checked names the texts that are printed are read as what they were printed from,
and everything that is read can be printed.
-/

namespace FuzzyControl

/--
A statement that has a text: it refers to declared names, its groups are affirmed and have
at least two children, and the brackets of its text do not nest too deep.
-/
structure Statement.Printable (vocabulary : Vocabulary) (statement : Statement) : Prop where
  premised : ∀ proposition ∈ statement.condition.propositions, proposition.Within vocabulary
  branching : statement.condition.isBranching = true
  shallow : statement.condition.depth ≤ maxNesting + 2
  concluded : statement.conclusion.Within vocabulary
  affirmed : statement.conclusion.negated = false

structure Vocabulary.Named (vocabulary : Vocabulary) : Prop where
  inputs : ∀ signature ∈ vocabulary.inputs, signature.Named
  outputs : ∀ signature ∈ vocabulary.outputs, signature.Named

/-! ## Depths -/

namespace Condition

theorem one_le_depth (condition : Condition) : 1 ≤ condition.depth := by
  cases condition with
  | leaf proposition => exact Nat.le_refl 1
  | group connective negated children => exact Nat.le_add_right 1 _

end Condition

namespace Tree

mutual

/-- Only brackets inside of brackets make a tree deeper. -/
theorem Operand.depth_le {limit : Nat} {items : List Item} {condition : Condition} :
    Operand limit items condition → condition.depth ≤ limit + 1
  | .leaf proposition => Nat.le_add_left 1 _
  | .bracketed inner => Whole.depth_le inner

theorem Whole.depth_le {limit : Nat} {items : List Item} {condition : Condition} :
    Whole limit items condition → condition.depth ≤ limit + 2
  | .operand single => Nat.le_succ_of_le (Operand.depth_le single)
  | .chain head tail => by
      have first := Operand.depth_le head
      have later := Chain.deepest_le tail
      rw [Condition.depth, Condition.deepest]
      omega

theorem Chain.deepest_le {limit : Nat} {connective : Connective} {items : List Item}
    {children : List Condition} :
    Chain limit connective items children → Condition.deepest children ≤ limit + 1
  | .last single => by
      have only := Operand.depth_le single
      rw [Condition.deepest, Condition.deepest]
      omega
  | .more head tail => by
      have first := Operand.depth_le head
      have later := Chain.deepest_le tail
      rw [Condition.deepest]
      omega

end

end Tree

/-! ## Words -/

theorem Hedge.isWord (hedge : Hedge) : IsWord hedge.word := by
  cases hedge <;> exact .of_check rfl

theorem Connective.isWord (connective : Connective) : IsWord connective.keyword.text := by
  cases connective <;> exact .of_check rfl

theorem tokenize_words {words : List String} (plain : ∀ word ∈ words, IsWord word) :
    tokenize (String.intercalate " " words) = words := by
  rw [tokenize_intercalate]
  induction words with
  | nil => rfl
  | cons word rest ih =>
      rw [List.flatMap_cons, (plain word List.mem_cons_self).tokenize_eq,
        ih fun other member => plain other (List.mem_cons_of_mem _ member)]
      rfl

theorem Signature.Named.isWord {signature : Signature} (named : signature.Named)
    {value : String} {index : Nat} (here : signature.values[index]? = some value) :
    IsWord signature.name ∧ IsWord value :=
  ⟨.of_isName named.name, .of_isName (named.values value (List.mem_of_getElem? here))⟩

/-- All tokens of a leaf over proper names are words. -/
theorem Grammar.Leaf.isWord {vocabulary : Vocabulary} (named : vocabulary.Named)
    {tokens : List String} {proposition : Proposition}
    (spelled : Grammar.Leaf vocabulary tokens proposition) {token : String}
    (member : token ∈ tokens) : IsWord token := by
  rcases spelled.mem_cases member with ⟨keyword, inner, rfl⟩ | ⟨signature, declared, rfl | value⟩
  · cases keyword with
    | isWord => exact .of_check rfl
    | notWord => exact .of_check rfl
    | adverb hedge => exact hedge.isWord
    | _ => cases inner
  · exact .of_isName (named.inputs signature (List.mem_of_getElem? declared)).name
  · have proper := named.inputs signature (List.mem_of_getElem? declared)
    exact (proper.isWord (Signature.getElem?_of_indexOf? value)).2

namespace Vocabulary

variable {vocabulary : Vocabulary} {lexicon : Lexicon}

/-- A proposition over declared names is printed as its leaf. -/
theorem printProposition?_spells (named : vocabulary.Named) {proposition : Proposition}
    (within : proposition.Within vocabulary) :
    ∃ text, vocabulary.printProposition? proposition = some text ∧
      Grammar.Leaf vocabulary (tokenize text) proposition := by
  obtain ⟨signature, declared, less⟩ := within
  obtain ⟨input, term, negated, hedge⟩ := proposition
  have proper := named.inputs signature (List.mem_of_getElem? declared)
  have here : signature.values[term]? = some signature.values[term] :=
    List.getElem?_eq_getElem less
  have names_eq : vocabulary.inputs[input]?.bind (·.names? term) =
      some (signature.name, signature.values[term]) := by
    rw [declared, Option.bind_some, Signature.names?, here]
    rfl
  have spelled := Grammar.Leaf.spelled negated hedge declared (proper.indexOf?_eq_some_iff.2 here)
  refine ⟨_, by rw [printProposition?, names_eq, Option.map_some], ?_⟩
  rw [tokenize_words fun token member => spelled.isWord named member]
  exact spelled

/-- A conclusion on a declared name is printed without brackets. -/
theorem printConclusion?_spells (named : vocabulary.Named) {conclusion : Conclusion}
    (within : conclusion.Within vocabulary) (affirmed : conclusion.negated = false) :
    ∃ text, vocabulary.printConclusion? conclusion = some text ∧
      Grammar.Concluding vocabulary (tokenize text) conclusion := by
  obtain ⟨signature, declared, less⟩ := within
  obtain ⟨output, value, negated⟩ := conclusion
  cases affirmed
  have proper := named.outputs signature (List.mem_of_getElem? declared)
  have here : signature.values[value]? = some signature.values[value] :=
    List.getElem?_eq_getElem less
  obtain ⟨name_word, value_word⟩ := proper.isWord here
  have verb_word : IsWord Keyword.isWord.text := .of_check rfl
  have plain : ∀ word ∈ [signature.name, Keyword.isWord.text, signature.values[value]],
      IsWord word := by
    simp [name_word, value_word, verb_word]
  have names_eq : vocabulary.outputs[output]?.bind (·.names? value) =
      some (signature.name, signature.values[value]) := by
    rw [declared, Option.bind_some, Signature.names?, here]
    rfl
  refine ⟨_, by rw [printConclusion?, names_eq, Option.map_some], ?_⟩
  rw [tokenize_words plain]
  exact .plain declared (proper.indexOf?_eq_some_iff.2 here)

/-- The texts are operands that spell the conditions and open at most `limit` brackets. -/
def SpellsOperands (vocabulary : Vocabulary) (limit : Nat) :
    List String → List Condition → Prop :=
  List.Forall₂ fun text child => Grammar.Operand vocabulary (tokenize text) child ∧
    Grammar.NestedFrom 0 limit (tokenize text)

/-- Operands that are joined by a connective are a chain. -/
theorem chain_of_spellsOperands (built : vocabulary.lexicon = .ok lexicon) {limit : Nat}
    (connective : Connective) {text : String} {child : Condition} {texts : List String}
    {children : List Condition}
    (first : Grammar.Operand vocabulary (tokenize text) child)
    (nested : Grammar.NestedFrom 0 limit (tokenize text))
    (later : vocabulary.SpellsOperands limit texts children) :
    Grammar.Chain vocabulary connective
        (tokenize (String.intercalate (" " ++ connective.keyword.text ++ " ") (text :: texts)))
        (child :: children) ∧
      Grammar.NestedFrom 0 limit
        (tokenize (String.intercalate (" " ++ connective.keyword.text ++ " ") (text :: texts))) := by
  induction later generalizing text child with
  | nil =>
      rw [String.intercalate_singleton]
      exact ⟨.last first, nested⟩
  | cons second rest ih =>
      obtain ⟨chained, nestedRest⟩ := ih second.1 second.2
      rw [tokenize_intercalate_word connective.isWord]
      exact ⟨.more first chained,
        (Grammar.nestedFrom_join_iff (first.openAfter_eq built)).2 ⟨nested, nestedRest⟩⟩

mutual

/-- A condition is printed as tokens that spell it, with as few brackets as possible. -/
theorem printCondition?_spells (built : vocabulary.lexicon = .ok lexicon)
    (named : vocabulary.Named) (condition : Condition)
    (branching : condition.isBranching = true)
    (within : ∀ proposition ∈ condition.propositions, proposition.Within vocabulary)
    (limit : Nat) (shallow : condition.depth ≤ limit + 2) :
    ∃ text, vocabulary.printCondition? condition = some text ∧
      Grammar.Whole vocabulary (tokenize text) condition ∧
      Grammar.NestedFrom 0 limit (tokenize text) := by
  match condition with
  | .leaf proposition =>
      obtain ⟨text, printed, spelled⟩ :=
        printProposition?_spells named (within proposition (List.mem_singleton_self _))
      exact ⟨text, printed, .operand (.leaf spelled),
        Grammar.nestedFrom_of_not_bracket (spelled.not_bracket built) (by omega)⟩
  | .group connective negated children =>
      simp only [Condition.isBranching, Bool.and_eq_true, Bool.not_eq_true', decide_eq_true_eq]
        at branching
      obtain ⟨rfl, two, branchings⟩ := branching
      have deepest_le : Condition.deepest children ≤ limit + 1 := by
        rw [Condition.depth] at shallow
        omega
      obtain ⟨texts, printed, spelled⟩ :=
        printOperands?_spells built named children branchings within limit deepest_le
      refine ⟨_, by rw [printCondition?, if_neg Bool.false_ne_true, printed, Option.map_some], ?_⟩
      cases spelled with
      | nil => cases two
      | cons first rest =>
          cases rest with
          | nil => exact absurd two (Nat.not_succ_le_self 1)
          | cons second rest =>
              obtain ⟨chained, nested⟩ :=
                chain_of_spellsOperands built connective second.1 second.2 rest
              rw [tokenize_intercalate_word connective.isWord]
              exact ⟨.chain first.1 chained,
                (Grammar.nestedFrom_join_iff (first.1.openAfter_eq built)).2 ⟨first.2, nested⟩⟩

/-- A group among operands takes one pair of brackets. -/
theorem printOperands?_spells (built : vocabulary.lexicon = .ok lexicon)
    (named : vocabulary.Named) (children : List Condition)
    (branching : Condition.allBranching children = true)
    (within : ∀ proposition ∈ Condition.propositionsOf children, proposition.Within vocabulary)
    (limit : Nat) (shallow : Condition.deepest children ≤ limit + 1) :
    ∃ texts, vocabulary.printOperands? children = some texts ∧
      vocabulary.SpellsOperands limit texts children := by
  match children with
  | [] => exact ⟨[], rfl, .nil⟩
  | child :: rest =>
      simp only [Condition.allBranching, Bool.and_eq_true] at branching
      rw [Condition.deepest] at shallow
      obtain ⟨texts, printedRest, spelledRest⟩ :=
        printOperands?_spells built named rest branching.2
          (fun proposition member => within proposition (List.mem_append_right _ member)) limit
          (by omega)
      have within_child := fun proposition member =>
        within proposition (List.mem_append_left _ member)
      match child with
      | .leaf proposition =>
          obtain ⟨text, printed, spelled⟩ :=
            printProposition?_spells named (within_child proposition (List.mem_singleton_self _))
          refine ⟨text :: texts, ?_, .cons ⟨.leaf spelled, ?_⟩ spelledRest⟩
          · simp only [printOperands?, printCondition?, printed, printedRest]
          · exact Grammar.nestedFrom_of_not_bracket (spelled.not_bracket built) (by omega)
      | .group connective negated inner =>
          -- the group has children of depth one at least, so its brackets fit in the limit
          have two : 2 ≤ (Condition.group connective negated inner).depth := by
            cases inner with
            | nil => simp [Condition.isBranching] at branching
            | cons head tail =>
                have deep := head.one_le_depth
                rw [Condition.depth, Condition.deepest]
                omega
          obtain ⟨lower, rfl⟩ : ∃ lower, limit = lower + 1 := ⟨limit - 1, by omega⟩
          obtain ⟨text, printed, spelled, nested⟩ :=
            printCondition?_spells built named (.group connective negated inner) branching.1
              within_child lower (by omega)
          have enclosed := tokenize_enclosed text
          refine ⟨("(" ++ text ++ ")") :: texts, ?_, .cons ?_ spelledRest⟩
          · simp only [printOperands?, printed, printedRest]
            rfl
          · rw [enclosed]
            exact ⟨.bracketed spelled,
              Grammar.nestedFrom_bracketed (spelled.openAfter_eq built) nested⟩

end

end Vocabulary

/-! ## Statements -/

namespace Grammar

variable {vocabulary : Vocabulary} {lexicon : Lexicon}

/-- A premise never contains `then`. -/
theorem thenWord_not_mem (built : vocabulary.lexicon = .ok lexicon) {tokens : List String}
    {items : List Item} (cut : Itemized vocabulary tokens items) :
    Keyword.thenWord.text ∉ tokens := by
  induction cut with
  | nil => exact List.not_mem_nil
  | leaf spelled rest ih =>
      intro member
      rcases List.mem_append.1 member with inside | later
      · exact spelled.keyword_not_mem built rfl inside
      · exact ih later
  | bracket bracket rest ih =>
      intro member
      rcases List.mem_cons.1 member with same | later
      · cases bracket <;> cases Keyword.text_injective same
      · exact ih later
  | connective connective rest ih =>
      intro member
      rcases List.mem_cons.1 member with same | later
      · cases connective <;> cases Keyword.text_injective same
      · exact ih later

/-- What is spelled can be printed. -/
theorem Spells.printable (built : vocabulary.lexicon = .ok lexicon) {tokens : List String}
    {statement : Statement} (spelled : Spells vocabulary tokens statement) :
    statement.Printable vocabulary := by
  cases spelled with
  | rule holds unambiguous nested concludes =>
      obtain ⟨branching, within⟩ := holds.within
      obtain ⟨concluded, affirmed⟩ := concludes.within
      obtain ⟨items, cut, derived⟩ := holds.itemized built (nestedFrom_zero_iff.2 nested)
      exact ⟨within, branching, derived.depth_le, concluded, affirmed⟩

end Grammar

namespace Vocabulary

variable {vocabulary : Vocabulary} {lexicon : Lexicon}

/-- The text of a statement spells the statement. -/
theorem print?_spells (built : vocabulary.lexicon = .ok lexicon) (named : vocabulary.Named)
    {statement : Statement} (printable : statement.Printable vocabulary) :
    ∃ text, vocabulary.print? statement = some text ∧
      Grammar.Spells vocabulary (tokenize text) statement := by
  obtain ⟨condition, conclusion⟩ := statement
  obtain ⟨premised, branching, shallow, concluded, affirmed⟩ := printable
  obtain ⟨premise, printedPremise, holds, nested⟩ :=
    printCondition?_spells built named condition branching premised maxNesting shallow
  obtain ⟨concluding, printedConclusion, concludes⟩ :=
    printConclusion?_spells named concluded affirmed
  obtain ⟨items, cut, _⟩ := holds.itemized built nested
  have if_word : IsWord Keyword.ifWord.text := .of_check rfl
  have then_word : IsWord Keyword.thenWord.text := .of_check rfl
  have tokens_eq : tokenize (String.intercalate " "
      [Keyword.ifWord.text, premise, Keyword.thenWord.text, concluding]) =
        Keyword.ifWord.text :: (tokenize premise ++ Keyword.thenWord.text :: tokenize concluding) := by
    rw [tokenize_intercalate]
    simp only [List.flatMap_cons, List.flatMap_nil, if_word.tokenize_eq, then_word.tokenize_eq,
      List.singleton_append, List.append_nil]
  have printed : vocabulary.print? ⟨condition, conclusion⟩ = some (String.intercalate " "
      [Keyword.ifWord.text, premise, Keyword.thenWord.text, concluding]) := by
    simp only [print?, printedPremise, printedConclusion]
  refine ⟨_, printed, ?_⟩
  rw [tokens_eq]
  exact .rule holds (Grammar.thenWord_not_mem built cut) (Grammar.nestedFrom_zero_iff.1 nested)
    concludes

end Vocabulary

namespace RuleBase

variable {α ω : Type} [Scalar α] [OutputVariable ω]

theorem vocabulary_named [CheckedOutput ω] {self : RuleBase α ω}
    (inputs_built : ∀ input ∈ self.inputs, input.Built)
    (outputs_built : ∀ output ∈ self.outputs, CheckedOutput.Built output) :
    self.vocabulary.Named where
  inputs signature member := by
    obtain ⟨input, input_mem, rfl⟩ := List.mem_map.1 member
    exact (inputs_built input input_mem).named
  outputs signature member := by
    obtain ⟨output, output_mem, rfl⟩ := List.mem_map.1 member
    exact CheckedOutput.named (outputs_built output output_mem)

/--
Over variables from the checking functions, a rule of full weight that is printed is read
back as it was, and the rules that can be printed so are all that any text is read as.
-/
theorem parse_print [CheckedOutput ω] (self : RuleBase α ω)
    (inputs_built : ∀ input ∈ self.inputs, input.Built)
    (outputs_built : ∀ output ∈ self.outputs, CheckedOutput.Built output)
    {lexicon : Lexicon} (built : self.vocabulary.lexicon = .ok lexicon) :
    (∀ rule : Rule α, rule.toStatement.Printable self.vocabulary → rule.weight = 1 →
      ∃ text, self.vocabulary.print? rule.toStatement = some text ∧
        self.parse text = .ok rule) ∧
    (∀ (text : String) (rule : Rule α), self.parse text = .ok rule →
      rule.toStatement.Printable self.vocabulary ∧ rule.weight = 1) := by
  constructor
  · intro rule printable weight_eq
    obtain ⟨text, printed, spelled⟩ := Vocabulary.print?_spells built
      (vocabulary_named inputs_built outputs_built) printable
    have rule_eq : rule = .ofStatement rule.toStatement :=
      Rule.eq_ofStatement_iff.2 ⟨rfl, rfl, weight_eq⟩
    refine ⟨text, printed, ?_⟩
    rw [rule_eq]
    exact parse_of_spells built spelled
  · intro text rule read
    obtain ⟨rule_eq, spelled⟩ := spells_of_parse read
    exact ⟨spelled.printable built, (Rule.eq_ofStatement_iff.1 rule_eq).2.2⟩

def dining : RuleBase Float (AffineVariable Float) where
  norms := default
  inputs := [food]
  outputs := [⟨"tip", [⟨"low", ∅, 0⟩, ⟨"high", ∅, 20⟩]⟩]
  rules := []

theorem dining_inputs_built : ∀ input ∈ dining.inputs, input.Built := by
  intro input member
  rw [List.mem_singleton.1 member]
  have declared : LinguisticVariable.declare "food" 0 10 =
      .ok (⟨"food", 0, 10, by decide, []⟩ : LinguisticVariable Float) := rfl
  have bad : LinguisticVariable.adjust (⟨"food", 0, 10, by decide, []⟩ : LinguisticVariable Float)
      (.addTerm "bad" (.constant 0)) =
      .ok ⟨"food", 0, 10, by decide, [⟨"bad", .constant 0⟩]⟩ := rfl
  have good : LinguisticVariable.adjust
      (⟨"food", 0, 10, by decide, [⟨"bad", .constant 0⟩]⟩ : LinguisticVariable Float)
      (.addTerm "good" (.constant 1)) =
      .ok ⟨"food", 0, 10, by decide, [⟨"bad", .constant 0⟩, ⟨"good", .constant 1⟩]⟩ := rfl
  exact .adjust (.adjust (.declare declared) bad) good

theorem dining_outputs_built : ∀ output ∈ dining.outputs, CheckedOutput.Built output := by
  intro output member
  rw [List.mem_singleton.1 member]
  have declared : AffineVariable.declare "tip" = .ok (⟨"tip", []⟩ : AffineVariable Float) := rfl
  have low : AffineVariable.addFunction ⟨"tip", []⟩ ⟨"low", ∅, (0 : Float)⟩ =
      .ok ⟨"tip", [⟨"low", ∅, 0⟩]⟩ := rfl
  have high : AffineVariable.addFunction ⟨"tip", [⟨"low", ∅, 0⟩]⟩ ⟨"high", ∅, (20 : Float)⟩ =
      .ok ⟨"tip", [⟨"low", ∅, 0⟩, ⟨"high", ∅, 20⟩]⟩ := rfl
  exact AffineVariable.Built.addFunction
    (.addFunction (.declare declared) ⟨"low", [], 0, rfl⟩ low) ⟨"high", [], 20, rfl⟩ high

theorem dining_round_trip :
    ∃ rule, dining.parse
        "if food is bad or (food is good and food is not very bad) then tip is high" = .ok rule ∧
      rule.condition = .group .or false [.leaf ⟨0, 0, false, none⟩,
        .group .and false [.leaf ⟨0, 1, false, none⟩, .leaf ⟨0, 0, true, some .very⟩]] ∧
      rule.conclusion = ⟨0, 1, false⟩ ∧ rule.weight = 1 := by
  obtain ⟨lexicon, built⟩ : ∃ lexicon, dining.vocabulary.lexicon = .ok lexicon := ⟨_, rfl⟩
  have printable : Statement.Printable dining.vocabulary
      ⟨.group .or false [.leaf ⟨0, 0, false, none⟩,
          .group .and false [.leaf ⟨0, 1, false, none⟩, .leaf ⟨0, 0, true, some .very⟩]],
        ⟨0, 1, false⟩⟩ := by
    refine ⟨?_, rfl, by decide, ⟨_, rfl, by decide⟩, rfl⟩
    intro proposition member
    have food : dining.vocabulary.inputs[0]? = some ⟨"food", ["bad", "good"]⟩ := rfl
    simp only [Condition.propositions, Condition.propositionsOf, List.append_nil,
      List.cons_append, List.nil_append, List.mem_cons, List.not_mem_nil, or_false] at member
    rcases member with rfl | rfl | rfl
    · exact ⟨_, food, by decide⟩
    · exact ⟨_, food, by decide⟩
    · exact ⟨_, food, by decide⟩
  obtain ⟨text, printed, read⟩ := (parse_print dining dining_inputs_built dining_outputs_built
    built).1 ⟨_, 1⟩ printable rfl
  have text_eq : some text = some
      "if food is bad or (food is good and food is not very bad) then tip is high" := by
    rw [← printed]
    decide +kernel
  rw [← Option.some.inj text_eq]
  exact ⟨_, read, rfl, rfl, rfl⟩

end RuleBase

end FuzzyControl
