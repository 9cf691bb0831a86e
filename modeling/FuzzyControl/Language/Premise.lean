import FuzzyControl.Condition
import FuzzyControl.Language.Bracket
import FuzzyControl.Language.Lexicon

/-!
# Premises

The words between `if` and `then` are first read as a sequence of items: every
run `variable is [not] [hedge] term` becomes one leaf, and brackets and
connectives stand for themselves.
-/

namespace FuzzyControl

inductive Item where
  | leaf (proposition : Proposition)
  | bracket (bracket : Bracket)
  | connective (connective : Connective)
deriving DecidableEq, Repr

/-- An item, and the word at which it starts. -/
structure PlacedItem where
  position : Nat
  token : String
  item : Item
deriving DecidableEq, Repr

namespace PlacedItem

def bracketEntry (placed : PlacedItem) : BracketEntry where
  position := placed.position
  bracket :=
    match placed.item with
    | .bracket bracket => some bracket
    | _ => none

end PlacedItem

namespace Word

/-- The item that a word stands for, unless it starts a leaf. -/
def item? (word : Word) : Option Item :=
  match word.lexeme with
  | .keyword .openBracket => some (.bracket .opening)
  | .keyword .closeBracket => some (.bracket .closing)
  | .keyword .andWord => some (.connective .and)
  | .keyword .orWord => some (.connective .or)
  | _ => none

def hedge? (word : Word) : Option Hedge :=
  match word.lexeme with
  | .keyword (.adverb hedge) => some hedge
  | _ => none

end Word

structure LeafReading where
  proposition : Proposition
  length : Nat
deriving DecidableEq, Repr

namespace LeafReading

def finish (vocabulary : Vocabulary) (input position : Nat) (negated : Bool)
    (hedge : Option Hedge) (length : Nat) : List Word → Except LanguageError LeafReading
  | [] => .error (.incompleteCondition (position + length))
  | word :: _ =>
      match vocabulary.inputs[input]? with
      | none => .error (.defect .missingVariable)
      | some signature =>
          (word.resolve (position + length) (.input input) signature.name).map fun term =>
            ⟨⟨input, term, negated, hedge⟩, length + 1⟩

def afterNegation (vocabulary : Vocabulary) (input position : Nat) (negated : Bool)
    (length : Nat) (words : List Word) : Except LanguageError LeafReading :=
  match words with
  | [] => finish vocabulary input position negated none length []
  | word :: rest =>
      match word.hedge? with
      | some hedge => finish vocabulary input position negated (some hedge) (length + 1) rest
      | none => finish vocabulary input position negated none length words

/-- Reads the words after the name of an input, which stands at `position`. -/
def read (vocabulary : Vocabulary) (input position : Nat) :
    List Word → Except LanguageError LeafReading
  | [] => .error (.incompleteCondition position)
  | verb :: rest =>
      if verb.isKeyword .isWord then
        match rest with
        | [] => afterNegation vocabulary input position false 2 []
        | word :: later =>
            if word.isKeyword .notWord then afterNegation vocabulary input position true 3 later
            else afterNegation vocabulary input position false 2 rest
      else .error (.missingKeyword .isWord (position + 1))

end LeafReading

/-- Reads the items of a premise whose first word stands at `position`. -/
def readItems (vocabulary : Vocabulary) (position : Nat) :
    List Word → Except LanguageError (List PlacedItem)
  | [] => .ok []
  | word :: rest =>
      match word.lexeme with
      | .input input =>
          match LeafReading.read vocabulary input position rest with
          | .error cause => .error cause
          | .ok reading =>
              (readItems vocabulary (position + reading.length)
                (rest.drop (reading.length - 1))).map
                (⟨position, word.token, .leaf reading.proposition⟩ :: ·)
      | _ =>
          match word.item? with
          | some item =>
              (readItems vocabulary (position + 1) rest).map (⟨position, word.token, item⟩ :: ·)
          | none => .error (.unexpectedToken word.token position)
termination_by words => words.length
decreasing_by all_goals simp only [List.length_cons, List.length_drop]; omega

end FuzzyControl
