import FuzzyControl.Hedge

/-!
# Keywords

The reserved words of the rule language.
-/

namespace FuzzyControl

inductive Keyword where
  | ifWord
  | thenWord
  | isWord
  | andWord
  | orWord
  | notWord
  | openBracket
  | closeBracket
  | adverb (hedge : Hedge)
deriving DecidableEq, Repr

namespace Keyword

/-- Every keyword, in the order in which a lexicon registers them. -/
def all : List Keyword :=
  [.ifWord, .thenWord, .isWord, .andWord, .orWord, .notWord, .openBracket, .closeBracket] ++
    Hedge.all.map .adverb

def text : Keyword → String
  | .ifWord => "if"
  | .thenWord => "then"
  | .isWord => "is"
  | .andWord => "and"
  | .orWord => "or"
  | .notWord => "not"
  | .openBracket => "("
  | .closeBracket => ")"
  | .adverb hedge => hedge.word

def ofText? (text : String) : Option Keyword :=
  all.find? (·.text == text)

theorem mem_all (keyword : Keyword) : keyword ∈ all := by
  cases keyword with
  | adverb hedge => cases hedge <;> decide
  | _ => decide

/-- Every keyword is read back from its text. -/
theorem ofText?_text (keyword : Keyword) : ofText? keyword.text = some keyword := by
  cases keyword with
  | adverb hedge => cases hedge <;> decide
  | _ => decide

end Keyword

end FuzzyControl
