import FuzzyControl.Language.Conclusion
import FuzzyControl.Language.Tree
import FuzzyControl.Text.Token

/-!
# Reading rules

A rule text is `if premise then conclusion`.  Faults are looked for in this order:
unknown tokens, a missing `if`, a missing `then`, the leaves of the premise, its
brackets, its tree, and last the conclusion.
-/

namespace FuzzyControl

namespace Vocabulary

def thenPosition? (words : List Word) : Option Nat :=
  words.findIdx? (·.isKeyword .thenWord)

def readWords (vocabulary : Vocabulary) (words : List Word) : Except LanguageError Statement :=
  if !words.head?.any (·.isKeyword .ifWord) then .error (.missingKeyword .ifWord 0)
  else
    match thenPosition? words with
    | none => .error (.missingKeyword .thenWord words.length)
    | some stop => do
        let items ← readItems vocabulary 1 ((words.take stop).drop 1)
        let premise ← Premise.ofItems items stop
        let condition ← premise.condition
        let conclusion ← Conclusion.read vocabulary (stop + 1) (words.drop (stop + 1))
        .ok ⟨condition, conclusion⟩

def readText (vocabulary : Vocabulary) (lexicon : Lexicon) (text : String) :
    Except LanguageError Statement := do
  let words ← lexicon.words (tokenize text)
  vocabulary.readWords words

def parse (vocabulary : Vocabulary) (text : String) : Except LanguageError Statement := do
  let lexicon ← vocabulary.lexicon
  vocabulary.readText lexicon text

end Vocabulary

end FuzzyControl
