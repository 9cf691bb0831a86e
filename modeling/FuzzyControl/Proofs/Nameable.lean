import FuzzyControl.Proofs.Clash
import FuzzyControl.Proofs.Layout

/-!
# Names can be used

A text is accepted as a name exactly if it is cut into one token, itself, and is no keyword.
This is all that a rule text asks of a name: whatever is declared can be mentioned.
-/

namespace FuzzyControl

/-- No keyword is read from a text that differs from all of them. -/
theorem Keyword.ofText?_eq_none_iff {text : String} :
    ofText? text = none ↔ text ∉ all.map Keyword.text := by
  rw [ofText?, List.find?_eq_none, List.mem_map]
  constructor
  · rintro apart ⟨keyword, member, rfl⟩
    exact apart keyword member (beq_self_eq_true _)
  · intro absent keyword member same
    exact absent ⟨keyword, member, eq_of_beq same⟩

/-- A proper name is a word that is no keyword. -/
theorem isName_iff_isWord {text : String} :
    isName text = true ↔ text ∉ Keyword.all.map Keyword.text ∧ IsWord text := by
  rw [← Keyword.ofText?_eq_none_iff]
  constructor
  · intro named
    exact ⟨Option.isNone_iff_eq_none.1 (Bool.and_eq_true_iff.1 named).2, .of_isName named⟩
  · rintro ⟨no_keyword, nonempty, plain⟩
    have some_character : text.toList.isEmpty = false := by
      rwa [List.isEmpty_eq_false_iff]
    have no_delimiter : text.toList.any isDelimiter = false := by
      rw [List.any_eq_false]
      exact fun character member => Bool.eq_false_iff.1 (plain character member)
    rw [isName, some_character, no_delimiter, no_keyword]
    rfl

/-- The brackets are tokens as well, but they are keywords. -/
theorem IsToken.isWord {text : String} (is_token : IsToken text)
    (no_keyword : text ∉ Keyword.all.map Keyword.text) : IsWord text := by
  rcases is_token with rfl | rfl | word
  · exact absurd (List.mem_map_of_mem (Keyword.mem_all .openBracket)) no_keyword
  · exact absurd (List.mem_map_of_mem (Keyword.mem_all .closeBracket)) no_keyword
  · exact word

/-- The checks of a name and the cutting of texts agree. -/
theorem isName_iff_tokenize {text : String} :
    isName text = true ↔
      text ∉ Keyword.all.map Keyword.text ∧ tokenize text = [text] := by
  rw [isName_iff_isWord]
  refine and_congr_right fun no_keyword => ⟨IsWord.tokenize_eq, fun alone => ?_⟩
  have member : text ∈ tokenize text := by
    rw [alone]
    exact List.mem_singleton_self text
  exact (isToken_of_mem_tokenize member).isWord no_keyword

/-! ## Plain rules -/

/-- The text `if input is term then output is value`. -/
def plainRuleText (input term output value : String) : String :=
  String.intercalate " " ["if", input, "is", term, "then", output, "is", value]

example : plainRuleText "food" "bad" "tip" "low" = "if food is bad then tip is low" := by
  decide +kernel

/-- Every name in a plain rule is one token. -/
theorem tokenize_plainRuleText {input term output value : String} (input_word : IsWord input)
    (term_word : IsWord term) (output_word : IsWord output) (value_word : IsWord value) :
    tokenize (plainRuleText input term output value) =
      ["if", input, "is", term, "then", output, "is", value] := by
  have if_word : IsWord "if" := .of_check rfl
  have is_word : IsWord "is" := .of_check rfl
  have then_word : IsWord "then" := .of_check rfl
  rw [plainRuleText, tokenize_intercalate]
  simp only [List.flatMap_cons, List.flatMap_nil, if_word.tokenize_eq, is_word.tokenize_eq,
    then_word.tokenize_eq, input_word.tokenize_eq, term_word.tokenize_eq,
    output_word.tokenize_eq, value_word.tokenize_eq, List.singleton_append, List.append_nil]

section Spelling

variable {vocabulary : Vocabulary} {lexicon : Lexicon} {key goal index result : Nat}
  {input output : Signature} {term value : String}

/-- The tokens of a plain rule spell a leaf and a conclusion. -/
theorem Grammar.spells_plainRule (built : vocabulary.lexicon = .ok lexicon)
    (declared : vocabulary.inputs[key]? = some input) (named : input.indexOf? term = some index)
    (concluded : vocabulary.outputs[goal]? = some output)
    (valued : output.indexOf? value = some result) :
    Spells vocabulary ["if", input.name, "is", term, "then", output.name, "is", value]
      ⟨.leaf ⟨key, index, false, none⟩, ⟨goal, result, false⟩⟩ := by
  have leaf : Leaf vocabulary [input.name, "is", term] ⟨key, index, false, none⟩ :=
    .spelled false none declared named
  have no_then := leaf.keyword_not_mem built (rfl : Keyword.thenWord.isLeafWord = false)
  have nested : NestedFrom 0 maxNesting [input.name, "is", term] :=
    nestedFrom_of_not_bracket (leaf.not_bracket built) (Int.natCast_nonneg _)
  exact .rule (.operand (.leaf leaf)) no_then (nestedFrom_zero_iff.1 nested)
    (.plain concluded valued)

end Spelling

/--
A text is accepted as a name exactly if it is none of the keywords and is cut into itself
alone.  Over variables from the checking functions, any term of any input and any value of any
output can therefore be put into a plain rule, and the rule that is read has just that leaf,
just that conclusion and full weight.
-/
theorem RuleBase.names_can_be_used {α ω : Type} [Scalar α] [OutputVariable ω] [CheckedOutput ω] :
    (∀ text, checkName text = .ok text ↔
      text ∉ Keyword.all.map Keyword.text ∧ tokenize text = [text]) ∧
    ∀ self : RuleBase α ω, (∀ input ∈ self.inputs, input.Built) →
      (∀ output ∈ self.outputs, CheckedOutput.Built output) →
      (∃ lexicon, self.vocabulary.lexicon = .ok lexicon) →
      ∀ (key index goal result : Nat) (input : LinguisticVariable α) (term : Term α) (output : ω)
        (value : String), self.inputs[key]? = some input → input.terms[index]? = some term →
        self.outputs[goal]? = some output →
        (OutputVariable.signature output).values[result]? = some value →
        ∃ rule,
          self.parse (plainRuleText input.name term.name (OutputVariable.name output) value) =
            .ok rule ∧
          rule.condition = .leaf ⟨key, index, false, none⟩ ∧
          rule.conclusion = ⟨goal, result, false⟩ ∧ rule.weight = 1 := by
  constructor
  · intro text
    rw [checkName_eq_ok_iff, and_iff_left rfl, isName_iff_tokenize]
  · intro self inputs_built outputs_built ⟨lexicon, built⟩ key index goal result input term output
      value declared has_term concluded has_value
    have input_named := (inputs_built input (List.mem_of_getElem? declared)).named
    have output_named := CheckedOutput.named (outputs_built output (List.mem_of_getElem? concluded))
    have term_here : input.signature.values[index]? = some term.name := by
      rw [LinguisticVariable.signature, List.getElem?_map, has_term, Option.map_some]
    have spelled := Grammar.spells_plainRule built
      (by rw [vocabulary_inputs, declared, Option.map_some] :
        self.vocabulary.inputs[key]? = some input.signature)
      (input_named.indexOf?_eq_some_iff.2 term_here)
      (by rw [vocabulary_outputs, concluded, Option.map_some] :
        self.vocabulary.outputs[goal]? = some (OutputVariable.signature output))
      (output_named.indexOf?_eq_some_iff.2 has_value)
    have cut : tokenize
        (plainRuleText input.name term.name (OutputVariable.name output) value) = _ :=
      tokenize_plainRuleText (.of_isName input_named.name)
        (.of_isName (input_named.values _ (List.mem_of_getElem? term_here)))
        (.of_isName output_named.name)
        (.of_isName (output_named.values _ (List.mem_of_getElem? has_value)))
    have read : self.parse
        (plainRuleText input.name term.name (OutputVariable.name output) value) =
          .ok (.ofStatement ⟨.leaf ⟨key, index, false, none⟩, ⟨goal, result, false⟩⟩) := by
      refine parse_of_spells built ?_
      rw [cut]
      exact spelled
    exact ⟨_, read, rfl, rfl, rfl⟩

/-- A rule base whose names have accents, and use one word on both sides. -/
def watering : RuleBase Float (AffineVariable Float) where
  norms := default
  inputs := [{ RuleBase.food with
    name := "température", terms := [⟨"basse", .constant 0⟩, ⟨"élevée", .constant 1⟩] }]
  outputs := [⟨"débit", [⟨"élevée", ∅, 5⟩, ⟨"arrêt", ∅, 0⟩]⟩]
  rules := []

theorem RuleBase.watering_reads :
    checkName "élevée" = .ok "élevée" ∧
      ∃ rule, watering.parse "if température is élevée then débit is arrêt" = .ok rule ∧
        rule.condition = .leaf ⟨0, 1, false, none⟩ ∧ rule.conclusion = ⟨0, 1, false⟩ ∧
        rule.weight = 1 := by
  have inputs_built : ∀ input ∈ watering.inputs, input.Built := by
    intro input member
    rw [List.mem_singleton.1 member]
    have declared : LinguisticVariable.declare "température" 0 10 =
        .ok { RuleBase.food with name := "température", terms := [] } := rfl
    have low : LinguisticVariable.adjust
        { RuleBase.food with name := "température", terms := [] } (.addTerm "basse" (.constant 0)) =
        .ok { RuleBase.food with name := "température", terms := [⟨"basse", .constant 0⟩] } := rfl
    have high : LinguisticVariable.adjust
        { RuleBase.food with name := "température", terms := [⟨"basse", .constant 0⟩] }
        (.addTerm "élevée" (.constant 1)) =
        .ok { RuleBase.food with
          name := "température", terms := [⟨"basse", .constant 0⟩, ⟨"élevée", .constant 1⟩] } := rfl
    exact .adjust (.adjust (.declare declared) low) high
  have outputs_built : ∀ output ∈ watering.outputs, CheckedOutput.Built output := by
    intro output member
    rw [List.mem_singleton.1 member]
    have declared : AffineVariable.declare "débit" = .ok (⟨"débit", []⟩ : AffineVariable Float) :=
      rfl
    have strong : AffineVariable.addFunction ⟨"débit", []⟩ ⟨"élevée", ∅, (5 : Float)⟩ =
        .ok ⟨"débit", [⟨"élevée", ∅, 5⟩]⟩ := rfl
    have closed : AffineVariable.addFunction ⟨"débit", [⟨"élevée", ∅, 5⟩]⟩
        ⟨"arrêt", ∅, (0 : Float)⟩ =
        .ok ⟨"débit", [⟨"élevée", ∅, 5⟩, ⟨"arrêt", ∅, 0⟩]⟩ := rfl
    exact AffineVariable.Built.addFunction
      (.addFunction (.declare declared) ⟨"élevée", [], 5, rfl⟩ strong) ⟨"arrêt", [], 0, rfl⟩ closed
  have word : tokenize "élevée" = ["élevée"] := by decide +kernel
  have text_eq : plainRuleText "température" "élevée" "débit" "arrêt" =
      "if température is élevée then débit is arrêt" := by
    decide +kernel
  have read := names_can_be_used.2 watering inputs_built outputs_built ⟨_, rfl⟩ 0 1 0 1 _ _ _
    "arrêt" rfl rfl rfl rfl
  have accepted := (@names_can_be_used Float (AffineVariable Float) _ _ _).1 "élevée"
  exact ⟨accepted.2 ⟨by decide, word⟩, text_eq ▸ read⟩

end FuzzyControl
