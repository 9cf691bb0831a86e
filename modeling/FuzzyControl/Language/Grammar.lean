import FuzzyControl.Language.Tree
import FuzzyControl.Rule

/-!
# The grammar of rules

Which tokens spell which statement, said without any reading order:

* a leaf is `variable is [not] [hedge] term`, the term being one of the variable;
* an operand is a leaf or a bracketed condition;
* a condition is an operand, or at least two operands joined by one connective;
* a statement is `if` condition `then` conclusion.

Brackets leave no trace in the tree, apart from the nesting that they cause.
-/

namespace FuzzyControl

def negationTokens (negated : Bool) : List String :=
  if negated then [Keyword.notWord.text] else []

def hedgeTokens (hedge : Option Hedge) : List String :=
  hedge.toList.map Hedge.word

def Connective.keyword : Connective → Keyword
  | .and => .andWord
  | .or => .orWord

namespace Grammar

inductive Leaf (vocabulary : Vocabulary) : List String → Proposition → Prop where
  | spelled {input : Nat} {signature : Signature} {term : String} {index : Nat}
      (negated : Bool) (hedge : Option Hedge)
      (declared : vocabulary.inputs[input]? = some signature)
      (named : signature.indexOf? term = some index) :
      Leaf vocabulary
        (signature.name :: Keyword.isWord.text ::
          (negationTokens negated ++ hedgeTokens hedge ++ [term]))
        ⟨input, index, negated, hedge⟩

mutual

/-- The tokens spell one operand of a chain. -/
inductive Operand (vocabulary : Vocabulary) : List String → Condition → Prop where
  | leaf {tokens : List String} {proposition : Proposition}
      (spelled : Leaf vocabulary tokens proposition) :
      Operand vocabulary tokens (.leaf proposition)
  | bracketed {tokens : List String} {condition : Condition}
      (inner : Whole vocabulary tokens condition) :
      Operand vocabulary
        (Keyword.openBracket.text :: (tokens ++ [Keyword.closeBracket.text])) condition

/-- The tokens spell a whole condition. -/
inductive Whole (vocabulary : Vocabulary) : List String → Condition → Prop where
  | operand {tokens : List String} {condition : Condition}
      (single : Operand vocabulary tokens condition) : Whole vocabulary tokens condition
  | chain {connective : Connective} {first rest : List String} {child : Condition}
      {children : List Condition} (head : Operand vocabulary first child)
      (tail : Chain vocabulary connective rest children) :
      Whole vocabulary (first ++ connective.keyword.text :: rest)
        (.group connective false (child :: children))

/-- The tokens spell operands that are joined by one connective. -/
inductive Chain (vocabulary : Vocabulary) : Connective → List String → List Condition → Prop where
  | last {connective : Connective} {tokens : List String} {child : Condition}
      (single : Operand vocabulary tokens child) : Chain vocabulary connective tokens [child]
  | more {connective : Connective} {first rest : List String} {child : Condition}
      {children : List Condition} (head : Operand vocabulary first child)
      (tail : Chain vocabulary connective rest children) :
      Chain vocabulary connective (first ++ connective.keyword.text :: rest) (child :: children)

end

/-- The tokens spell a conclusion, with or without brackets. -/
inductive Concluding (vocabulary : Vocabulary) : List String → Conclusion → Prop where
  | plain {output : Nat} {signature : Signature} {value : String} {index : Nat}
      (declared : vocabulary.outputs[output]? = some signature)
      (named : signature.indexOf? value = some index) :
      Concluding vocabulary [signature.name, Keyword.isWord.text, value]
        { output := output, value := index }
  | bracketed {output : Nat} {signature : Signature} {value : String} {index : Nat}
      (declared : vocabulary.outputs[output]? = some signature)
      (named : signature.indexOf? value = some index) :
      Concluding vocabulary
        [Keyword.openBracket.text, signature.name, Keyword.isWord.text, value,
          Keyword.closeBracket.text]
        { output := output, value := index }

/-- How many brackets are open after some tokens; closing brackets count down. -/
def openAfter (tokens : List String) : Int :=
  tokens.count Keyword.openBracket.text - tokens.count Keyword.closeBracket.text

/-- At most `limit` brackets are open at once. -/
def NestedWithin (limit : Nat) (tokens : List String) : Prop :=
  ∀ before, before <+: tokens → openAfter before ≤ limit

inductive Spells (vocabulary : Vocabulary) : List String → Statement → Prop where
  | rule {premise concluding : List String} {condition : Condition} {conclusion : Conclusion}
      (holds : Whole vocabulary premise condition)
      (unambiguous : Keyword.thenWord.text ∉ premise)
      (nested : NestedWithin maxNesting premise)
      (concludes : Concluding vocabulary concluding conclusion) :
      Spells vocabulary
        (Keyword.ifWord.text :: (premise ++ Keyword.thenWord.text :: concluding))
        ⟨condition, conclusion⟩

end Grammar

end FuzzyControl
