import FuzzyControl.Proofs.Naming
import FuzzyControl.Proofs.Reading
import FuzzyControl.RuleBase

/-!
# References of statements

A statement refers to variables and values by key and index.  What a text spells refers
to declared ones only, has no empty group, and keeps doing so when the vocabulary grows.
-/

namespace FuzzyControl

def Proposition.Within (vocabulary : Vocabulary) (proposition : Proposition) : Prop :=
  ∃ signature, vocabulary.inputs[proposition.input]? = some signature ∧
    proposition.term < signature.values.length

def Conclusion.Within (vocabulary : Vocabulary) (conclusion : Conclusion) : Prop :=
  ∃ signature, vocabulary.outputs[conclusion.output]? = some signature ∧
    conclusion.value < signature.values.length

structure Statement.Within (vocabulary : Vocabulary) (statement : Statement) : Prop where
  nonempty : statement.condition.hasEmptyGroup = false
  premised : ∀ proposition ∈ statement.condition.propositions, proposition.Within vocabulary
  concluded : statement.conclusion.Within vocabulary

/-! ## Growing vocabularies -/

/-- Every variable keeps its key and loses no value. -/
def Grown (smaller larger : List Signature) : Prop :=
  ∀ (key : Nat) (signature : Signature), smaller[key]? = some signature →
    ∃ grown : Signature, larger[key]? = some grown ∧
      signature.values.length ≤ grown.values.length

structure Vocabulary.Grows (smaller larger : Vocabulary) : Prop where
  inputs : Grown smaller.inputs larger.inputs
  outputs : Grown smaller.outputs larger.outputs

section Growth

variable {smaller larger : Vocabulary}

theorem Proposition.Within.mono {proposition : Proposition} (grows : smaller.Grows larger)
    (within : proposition.Within smaller) : proposition.Within larger := by
  obtain ⟨signature, declared, less⟩ := within
  obtain ⟨grown, still, le⟩ := grows.inputs _ _ declared
  exact ⟨grown, still, Nat.lt_of_lt_of_le less le⟩

theorem Conclusion.Within.mono {conclusion : Conclusion} (grows : smaller.Grows larger)
    (within : conclusion.Within smaller) : conclusion.Within larger := by
  obtain ⟨signature, declared, less⟩ := within
  obtain ⟨grown, still, le⟩ := grows.outputs _ _ declared
  exact ⟨grown, still, Nat.lt_of_lt_of_le less le⟩

/-- A statement survives the growth of its vocabulary. -/
theorem Statement.Within.mono {statement : Statement} (grows : smaller.Grows larger)
    (within : statement.Within smaller) : statement.Within larger where
  nonempty := within.nonempty
  premised proposition member := (within.premised proposition member).mono grows
  concluded := within.concluded.mono grows

end Growth

/-! ## Trees that can be spelled -/

namespace Condition

mutual

/-- Whether every group is affirmed and has at least two children. -/
def isBranching : Condition → Bool
  | leaf _ => true
  | group _ negated children => !negated && (decide (2 ≤ children.length) && allBranching children)

def allBranching : List Condition → Bool
  | [] => true
  | child :: rest => isBranching child && allBranching rest

end

mutual

theorem hasEmptyGroup_of_isBranching {condition : Condition}
    (branching : condition.isBranching = true) : condition.hasEmptyGroup = false := by
  match condition with
  | leaf _ => rfl
  | group _ _ [] => simp [isBranching] at branching
  | group _ _ (first :: rest) =>
      simp only [isBranching, Bool.and_eq_true] at branching
      simpa [hasEmptyGroup] using anyEmptyGroup_of_allBranching branching.2.2

theorem anyEmptyGroup_of_allBranching {children : List Condition}
    (branching : allBranching children = true) : anyEmptyGroup children = false := by
  match children with
  | [] => rfl
  | child :: rest =>
      simp only [allBranching, Bool.and_eq_true] at branching
      rw [anyEmptyGroup, hasEmptyGroup_of_isBranching branching.1,
        anyEmptyGroup_of_allBranching branching.2]
      rfl

end

end Condition

theorem Signature.getElem?_of_indexOf? {signature : Signature} {value : String} {index : Nat}
    (named : signature.indexOf? value = some index) : signature.values[index]? = some value :=
  getElem?_of_findIdx? named

theorem Signature.lt_of_indexOf? {signature : Signature} {value : String} {index : Nat}
    (named : signature.indexOf? value = some index) : index < signature.values.length :=
  (List.getElem?_eq_some_iff.1 (getElem?_of_indexOf? named)).1

namespace Grammar

variable {vocabulary : Vocabulary}

theorem Leaf.within {tokens : List String} {proposition : Proposition}
    (spelled : Leaf vocabulary tokens proposition) : proposition.Within vocabulary := by
  obtain ⟨negated, hedge, declared, named⟩ := spelled
  exact ⟨_, declared, Signature.lt_of_indexOf? named⟩

mutual

theorem Operand.within {tokens : List String} {condition : Condition} :
    Operand vocabulary tokens condition → condition.isBranching = true ∧
      ∀ proposition ∈ condition.propositions, proposition.Within vocabulary
  | .leaf spelled => by
      refine ⟨rfl, fun proposition member => ?_⟩
      rw [List.mem_singleton.1 member]
      exact spelled.within
  | .bracketed inner => Whole.within inner

theorem Whole.within {tokens : List String} {condition : Condition} :
    Whole vocabulary tokens condition → condition.isBranching = true ∧
      ∀ proposition ∈ condition.propositions, proposition.Within vocabulary
  | .operand single => Operand.within single
  | .chain head tail => by
      obtain ⟨branching, within⟩ := Operand.within head
      obtain ⟨nonempty, branchings, withins⟩ := Chain.within tail
      refine ⟨?_, fun proposition member => ?_⟩
      · simpa [Condition.isBranching, Condition.allBranching, branching, branchings] using nonempty
      · rcases List.mem_append.1 member with first | later
        · exact within proposition first
        · exact withins proposition later

theorem Chain.within {connective : Connective} {tokens : List String}
    {children : List Condition} :
    Chain vocabulary connective tokens children → 1 ≤ children.length ∧
      Condition.allBranching children = true ∧
      ∀ proposition ∈ Condition.propositionsOf children, proposition.Within vocabulary
  | .last single => by
      obtain ⟨branching, within⟩ := Operand.within single
      refine ⟨Nat.le_refl 1, ?_, fun proposition member => ?_⟩
      · simp [Condition.allBranching, branching]
      · rw [Condition.propositionsOf, Condition.propositionsOf, List.append_nil] at member
        exact within proposition member
  | .more head tail => by
      obtain ⟨branching, within⟩ := Operand.within head
      obtain ⟨_, branchings, withins⟩ := Chain.within tail
      refine ⟨Nat.le_add_left 1 _, ?_, fun proposition member => ?_⟩
      · rw [Condition.allBranching, branching, branchings]
        rfl
      · rcases List.mem_append.1 member with first | later
        · exact within proposition first
        · exact withins proposition later

end

theorem Concluding.within {tokens : List String} {conclusion : Conclusion}
    (concludes : Concluding vocabulary tokens conclusion) :
    conclusion.Within vocabulary ∧ conclusion.negated = false := by
  cases concludes with
  | plain declared named => exact ⟨⟨_, declared, Signature.lt_of_indexOf? named⟩, rfl⟩
  | bracketed declared named => exact ⟨⟨_, declared, Signature.lt_of_indexOf? named⟩, rfl⟩

/-- What a text spells refers to declared names only. -/
theorem Spells.within {tokens : List String} {statement : Statement}
    (spelled : Spells vocabulary tokens statement) : statement.Within vocabulary := by
  cases spelled with
  | rule holds unambiguous nested concludes =>
      obtain ⟨branching, within⟩ := holds.within
      exact ⟨Condition.hasEmptyGroup_of_isBranching branching, within, concludes.within.1⟩

end Grammar

end FuzzyControl
