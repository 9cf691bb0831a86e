import FuzzyControl.Language.Printer
import FuzzyControl.Proofs.Meaning
import FuzzyControl.Proofs.Step

/-!
# Later declarations extend the rule language

Variables keep their keys and names, and their values keep their indices, whatever is
declared or adjusted later.  A text that spells a statement therefore spells it ever after,
and it is still read as that statement as long as there is a lexicon at all.
-/

namespace FuzzyControl

structure Signature.ExtendsTo (original extended : Signature) : Prop where
  name_eq : extended.name = original.name
  values_prefix : original.values <+: extended.values

/-- Every variable keeps its key, its name and its values. -/
structure Vocabulary.ExtendsTo (original extended : Vocabulary) : Prop where
  inputs : Kept Signature.ExtendsTo original.inputs extended.inputs
  outputs : Kept Signature.ExtendsTo original.outputs extended.outputs

def Vocabulary.denoted? (vocabulary : Vocabulary) (place : Candidate) :
    Option (String × String) :=
  (vocabulary.signature? place.owner).bind (·.names? place.index)

namespace Signature.ExtendsTo

variable {original extended further : Signature}

theorem refl (signature : Signature) : signature.ExtendsTo signature :=
  ⟨rfl, List.prefix_refl _⟩

theorem trans (first : original.ExtendsTo extended) (second : extended.ExtendsTo further) :
    original.ExtendsTo further :=
  ⟨second.name_eq.trans first.name_eq, first.values_prefix.trans second.values_prefix⟩

theorem indexOf? (extends_to : original.ExtendsTo extended) {value : String} {index : Nat}
    (named : original.indexOf? value = some index) : extended.indexOf? value = some index := by
  obtain ⟨more, values_eq⟩ := extends_to.values_prefix
  unfold Signature.indexOf? at named ⊢
  rw [← values_eq, List.findIdx?_append, named, Option.some_or]

theorem names? (extends_to : original.ExtendsTo extended) {index : Nat}
    {names : String × String} (named : original.names? index = some names) :
    extended.names? index = some names := by
  obtain ⟨value, here, rfl⟩ := Option.map_eq_some_iff.1 named
  obtain ⟨more, values_eq⟩ := extends_to.values_prefix
  have less := (List.getElem?_eq_some_iff.1 here).1
  rw [Signature.names?, ← values_eq, List.getElem?_append_left less, here, Option.map_some,
    extends_to.name_eq]

end Signature.ExtendsTo

namespace Vocabulary.ExtendsTo

variable {original extended further : Vocabulary}

theorem refl (vocabulary : Vocabulary) : vocabulary.ExtendsTo vocabulary :=
  ⟨.refl .refl _, .refl .refl _⟩

theorem signature? (extends_to : original.ExtendsTo extended) {owner : Owner}
    {signature : Signature} (declared : original.signature? owner = some signature) :
    ∃ own, extended.signature? owner = some own ∧ signature.ExtendsTo own := by
  cases owner with
  | input key => exact extends_to.inputs key signature declared
  | output key => exact extends_to.outputs key signature declared

theorem of_signature?
    (kept : ∀ (owner : Owner) (signature : Signature),
      original.signature? owner = some signature →
        ∃ own, extended.signature? owner = some own ∧ signature.ExtendsTo own) :
    original.ExtendsTo extended :=
  ⟨fun key => kept (.input key), fun key => kept (.output key)⟩

theorem trans (first : original.ExtendsTo extended) (second : extended.ExtendsTo further) :
    original.ExtendsTo further :=
  of_signature? fun owner signature declared => by
    obtain ⟨own, still, extends_own⟩ := first.signature? declared
    obtain ⟨last, finally_declared, extends_last⟩ := second.signature? still
    exact ⟨last, finally_declared, extends_own.trans extends_last⟩

/-- A place keeps denoting the same variable and value. -/
theorem denoted? (extends_to : original.ExtendsTo extended) {place : Candidate}
    {names : String × String} (denotes : original.denoted? place = some names) :
    extended.denoted? place = some names := by
  obtain ⟨signature, declared, named⟩ := Option.bind_eq_some_iff.1 denotes
  obtain ⟨own, still, extends_own⟩ := extends_to.signature? declared
  exact Option.bind_eq_some_iff.2 ⟨own, still, extends_own.names? named⟩

end Vocabulary.ExtendsTo

/-! ## Spelled statements -/

namespace Grammar

variable {original extended : Vocabulary}

theorem Leaf.mono (extends_to : original.ExtendsTo extended) {tokens : List String}
    {proposition : Proposition} (spelled : Leaf original tokens proposition) :
    Leaf extended tokens proposition := by
  cases spelled with
  | spelled negated hedge declared named =>
      obtain ⟨own, still, extends_own⟩ := extends_to.inputs _ _ declared
      rw [← extends_own.name_eq]
      exact .spelled negated hedge still (extends_own.indexOf? named)

mutual

theorem Operand.mono (extends_to : original.ExtendsTo extended) {tokens : List String}
    {condition : Condition} : Operand original tokens condition →
      Operand extended tokens condition
  | .leaf spelled => .leaf (spelled.mono extends_to)
  | .bracketed inner => .bracketed (Whole.mono extends_to inner)

theorem Whole.mono (extends_to : original.ExtendsTo extended) {tokens : List String}
    {condition : Condition} : Whole original tokens condition → Whole extended tokens condition
  | .operand single => .operand (Operand.mono extends_to single)
  | .chain head tail => .chain (Operand.mono extends_to head) (Chain.mono extends_to tail)

theorem Chain.mono (extends_to : original.ExtendsTo extended) {connective : Connective}
    {tokens : List String} {children : List Condition} :
    Chain original connective tokens children → Chain extended connective tokens children
  | .last single => .last (Operand.mono extends_to single)
  | .more head tail => .more (Operand.mono extends_to head) (Chain.mono extends_to tail)

end

theorem Concluding.mono (extends_to : original.ExtendsTo extended) {tokens : List String}
    {conclusion : Conclusion} (concludes : Concluding original tokens conclusion) :
    Concluding extended tokens conclusion := by
  cases concludes with
  | plain declared named =>
      obtain ⟨own, still, extends_own⟩ := extends_to.outputs _ _ declared
      rw [← extends_own.name_eq]
      exact .plain still (extends_own.indexOf? named)
  | bracketed declared named =>
      obtain ⟨own, still, extends_own⟩ := extends_to.outputs _ _ declared
      rw [← extends_own.name_eq]
      exact .bracketed still (extends_own.indexOf? named)

/-- What is spelled over a vocabulary is spelled over every extension of it. -/
theorem Spells.mono (extends_to : original.ExtendsTo extended) {tokens : List String}
    {statement : Statement} (spelled : Spells original tokens statement) :
    Spells extended tokens statement := by
  cases spelled with
  | rule holds unambiguous nested concludes =>
      exact .rule (holds.mono extends_to) unambiguous nested (concludes.mono extends_to)

end Grammar

/-! ## Operations -/

/-- Outputs whose adjustments keep their names and the values that they have. -/
class ExtendingOutput (α ω : Type) {δ : outParam Type} [OutputVariable ω]
    [AdjustableOutput α ω δ] : Prop where
  extendsTo_adjust : ∀ {output adjusted : ω} {command : δ},
    (AdjustableOutput.adjust output command : Except (Error α) ω) = .ok adjusted →
      (OutputVariable.signature output).ExtendsTo (OutputVariable.signature adjusted)

theorem LinguisticVariable.extendsTo_adjust {α : Type} [Scalar α]
    {original adjusted : LinguisticVariable α} {command : Adjustment α}
    (adjusts : original.adjust command = .ok adjusted) :
    original.signature.ExtendsTo adjusted.signature := by
  cases command with
  | addTerm name set =>
      obtain ⟨_, _, signature_eq⟩ := addTerm_signature adjusts
      rw [signature_eq]
      exact ⟨rfl, List.prefix_append _ _⟩
  | recalibrate index set =>
      cases adjusts
      rw [recalibrate_signature]
      exact .refl _

instance {α : Type} [Scalar α] : ExtendingOutput α (LinguisticVariable α) where
  extendsTo_adjust adjusts := LinguisticVariable.extendsTo_adjust adjusts

instance {α : Type} : ExtendingOutput α (AffineVariable α) where
  extendsTo_adjust adjusts := by
    obtain ⟨_, signature_eq⟩ := AffineVariable.addFunction_signature adjusts
    exact ⟨congrArg (·.name) signature_eq,
      ⟨_, (congrArg (·.values) signature_eq).symm⟩⟩

instance {α : Type} : ExtendingOutput α Signature where
  extendsTo_adjust {_ _ command} := nomatch command

namespace RuleBase

variable {α ω δ : Type} [Scalar α] [OutputVariable ω] [AdjustableOutput α ω δ]

theorem Step.extendsTo [ExtendingOutput α ω] {self changed : RuleBase α ω}
    {operation : Operation α ω δ} (step : Step self operation changed) :
    self.vocabulary.ExtendsTo changed.vocabulary := by
  obtain ⟨inputs, outputs⟩ := step.kept Signature.ExtendsTo .refl
    LinguisticVariable.extendsTo_adjust ExtendingOutput.extendsTo_adjust
  exact ⟨inputs, outputs⟩

/-- Every run extends the vocabulary. -/
theorem extendsTo_performAll [ExtendingOutput α ω] (self : RuleBase α ω)
    (operations : List (Operation α ω δ)) :
    self.vocabulary.ExtendsTo (self.performAll operations).vocabulary :=
  performAll_induction (fun current => self.vocabulary.ExtendsTo current.vocabulary) (.refl _)
    fun _ step extended => extended.trans step.extendsTo

/--
Whatever operations come later, a text that was read is read as the same rule as long as
there is a lexicon, and every reference of a rule denotes the variable and the value that
it denoted before.
-/
theorem parse_conservative [ExtendingOutput α ω] (self : RuleBase α ω)
    (operations : List (Operation α ω δ)) :
    (∀ (text : String) (rule : Rule α), self.parse text = .ok rule →
      (∃ lexicon, (self.performAll operations).vocabulary.lexicon = .ok lexicon) →
        (self.performAll operations).parse text = .ok rule) ∧
    (∀ (place : Candidate) (names : String × String),
      self.vocabulary.denoted? place = some names →
        (self.performAll operations).vocabulary.denoted? place = some names) := by
  have extended := self.extendsTo_performAll operations
  refine ⟨fun text rule read ⟨lexicon, built⟩ => ?_, fun place names => extended.denoted?⟩
  obtain ⟨rule_eq, spelled⟩ := spells_of_parse read
  rw [rule_eq]
  exact parse_of_spells built (spelled.mono extended)

/-- How good the service is, in words that are also used of the food. -/
def service : LinguisticVariable Float :=
  ⟨"service", 0, 5, by decide, [⟨"good", .constant 1⟩, ⟨"bad", .constant 0⟩]⟩

/-- Operations that reuse the words of the tipping rules; the last one fails. -/
def rewording : List (Operation Float Signature Empty) :=
  [.addRuleText "if food is bad or (food is not very good) then (tip is low)",
    .addInput service,
    .adjustInput 0 (.addTerm "low" (.constant 0.5)),
    .adjustInput 0 (.recalibrate 1 (.constant 0.25)),
    .addOutput ⟨"mood", ["bad", "low", "low"]⟩,
    .clearRules,
    .addInput food]

theorem tipping_reworded :
    (tipping.performAll rewording).inputs.length = 2 ∧
    (∃ rule, (tipping.performAll rewording).parse
        "if food is bad or (food is not very good) then (tip is low)" = .ok rule ∧
      rule.condition =
        .group .or false [.leaf ⟨0, 0, false, none⟩, .leaf ⟨0, 1, true, some .very⟩] ∧
      rule.conclusion = ⟨0, 0, false⟩ ∧ rule.weight = 1) ∧
    (tipping.performAll rewording).vocabulary.denoted? ⟨.output 0, 1⟩ = some ("tip", "high") := by
  have unambiguous : (tipping.performAll rewording).vocabulary.Unambiguous := by decide +kernel
  have built : ∃ lexicon, (tipping.performAll rewording).vocabulary.lexicon = .ok lexicon := by
    rcases Vocabulary.lexicon_eq _ with ⟨_, built⟩ | ⟨ambiguous, _⟩
    · exact built
    · exact absurd unambiguous ambiguous
  obtain ⟨lexicon, tipping_built⟩ := tipping_lexicon
  have read := parse_of_spells tipping_built tipping_spells
  obtain ⟨rereads, denotes⟩ := parse_conservative tipping rewording
  exact ⟨by decide +kernel, ⟨_, rereads _ _ read built, rfl, rfl, rfl⟩, denotes _ _ rfl⟩

end RuleBase

end FuzzyControl
