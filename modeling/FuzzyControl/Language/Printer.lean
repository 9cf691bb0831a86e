import FuzzyControl.Language.Grammar

/-!
# Printing rules

A statement is printed with one pair of brackets around every group inside a
group and with no other brackets.  What refers to no declared name has no text.
-/

namespace FuzzyControl

namespace Signature

def names? (signature : Signature) (index : Nat) : Option (String × String) :=
  signature.values[index]?.map fun value => (signature.name, value)

end Signature

namespace Vocabulary

/-- The text `variable is [not] [hedge] term` of a proposition. -/
def printProposition? (vocabulary : Vocabulary) (proposition : Proposition) : Option String :=
  (vocabulary.inputs[proposition.input]?.bind (·.names? proposition.term)).map fun names =>
    String.intercalate " "
      (names.1 :: Keyword.isWord.text ::
        (negationTokens proposition.negated ++ hedgeTokens proposition.hedge ++ [names.2]))

def printConclusion? (vocabulary : Vocabulary) (conclusion : Conclusion) : Option String :=
  (vocabulary.outputs[conclusion.output]?.bind (·.names? conclusion.value)).map fun names =>
    String.intercalate " " [names.1, Keyword.isWord.text, names.2]

mutual

/-- The text of a condition; negations of groups cannot be written. -/
def printCondition? (vocabulary : Vocabulary) : Condition → Option String
  | .leaf proposition => vocabulary.printProposition? proposition
  | .group connective negated children =>
      if negated then none
      else
        (vocabulary.printOperands? children).map
          (String.intercalate (" " ++ connective.keyword.text ++ " "))

/-- The texts of operands, groups in brackets. -/
def printOperands? (vocabulary : Vocabulary) : List Condition → Option (List String)
  | [] => some []
  | child :: rest =>
      match vocabulary.printCondition? child, vocabulary.printOperands? rest with
      | some text, some texts =>
          match child with
          | .leaf _ => some (text :: texts)
          | .group .. =>
              some ((Keyword.openBracket.text ++ text ++ Keyword.closeBracket.text) :: texts)
      | _, _ => none

end

def print? (vocabulary : Vocabulary) (statement : Statement) : Option String :=
  match vocabulary.printCondition? statement.condition,
      vocabulary.printConclusion? statement.conclusion with
  | some condition, some conclusion =>
      some (String.intercalate " "
        [Keyword.ifWord.text, condition, Keyword.thenWord.text, conclusion])
  | _, _ => none

end Vocabulary

end FuzzyControl
