import FuzzyControl.Language.Bracket
import FuzzyControl.Language.Lexicon
import FuzzyControl.Rule

/-!
# Conclusions

The words after `then` say `output is value`, with or without one pair of brackets
around them.
-/

namespace FuzzyControl

namespace Word

def bracket? (word : Word) : Option Bracket :=
  match word.lexeme with
  | .keyword .openBracket => some .opening
  | .keyword .closeBracket => some .closing
  | _ => none

end Word

/-- Words from a position on, as entries for the matching of brackets. -/
def bracketEntries (position : Nat) (words : List Word) : List BracketEntry :=
  (words.zipIdx position).map fun entry => ⟨entry.2, entry.1.bracket?⟩

namespace Conclusion

def isEnclosed (words : List Word) : Bool :=
  decide (2 ≤ words.length) &&
    (words.head?.any (·.isKeyword .openBracket) && words.getLast?.any (·.isKeyword .closeBracket))

def subject (word : Word) : Except LanguageError Nat :=
  match word.lexeme with
  | .output key => .ok key
  | .input _ => .error (.invalidConclusion (.inputVariable word.token))
  | _ => .error (.invalidConclusion (.notOutputVariable word.token))

def readPlain (vocabulary : Vocabulary) (position : Nat) (words : List Word) :
    Except LanguageError Conclusion :=
  match words with
  | [output, verb, value] => do
      let key ← subject output
      if verb.isKeyword .isWord then
        match vocabulary.outputs[key]? with
        | none => .error (.defect .missingVariable)
        | some signature => do
            let index ← value.resolve (position + 2) (.output key) signature.name
            .ok { output := key, value := index }
      else .error (.missingKeyword .isWord (position + 1))
  | _ => .error (.invalidConclusion (.length words.length))

/-- Reads the words after `then`, the first of which stands at `position`. -/
def read (vocabulary : Vocabulary) (position : Nat) (words : List Word) :
    Except LanguageError Conclusion := do
  let _ ← Bracket.pairs none (bracketEntries position words)
  if isEnclosed words then readPlain vocabulary (position + 1) words.tail.dropLast
  else readPlain vocabulary position words

end Conclusion

end FuzzyControl
