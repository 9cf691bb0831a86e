import FuzzyControl.Text.Blank

/-!
# Tokens

Rule text is cut into tokens: a bracket is a token of its own, and any other
token is a longest run of characters that are neither blank nor a bracket.  What
the tokens mean is left to the lexicon.
-/

namespace FuzzyControl

def isBracket (character : Char) : Bool :=
  character == '(' || character == ')'

/-- Whether a character ends a word. -/
def isDelimiter (character : Char) : Bool :=
  isBlank character || isBracket character

namespace Token

/-- The first token of a text that starts with no blank, and the text after it. -/
def split? : List Char → Option (List Char × List Char)
  | [] => none
  | first :: rest =>
      if isBracket first then some ([first], rest)
      else
        some (first :: rest.takeWhile (!isDelimiter ·), rest.dropWhile (!isDelimiter ·))

/-- Skips blanks and takes one token. -/
def next? (text : List Char) : Option (List Char × List Char) :=
  split? (text.dropWhile isBlank)

theorem length_dropWhile_le (keep : Char → Bool) (text : List Char) :
    (text.dropWhile keep).length ≤ text.length :=
  (List.dropWhile_sublist keep).length_le

/-- Taking a token leaves a shorter text. -/
theorem length_lt_of_next? {text token rest : List Char} (taken : next? text = some (token, rest)) :
    rest.length < text.length := by
  unfold next? at taken
  have bound := length_dropWhile_le isBlank text
  cases shape : text.dropWhile isBlank with
  | nil => simp [shape, split?] at taken
  | cons first tail =>
      rw [shape] at taken bound
      have inner := length_dropWhile_le (!isDelimiter ·) tail
      simp only [split?] at taken
      simp only [List.length_cons] at bound
      split at taken <;> simp only [Option.some.injEq, Prod.mk.injEq] at taken <;>
        obtain ⟨_, rfl⟩ := taken <;> omega

def all (text : List Char) : List (List Char) :=
  match _taken : next? text with
  | none => []
  | some (token, rest) => token :: all rest
termination_by text.length
decreasing_by exact length_lt_of_next? _taken

end Token

def tokenize (text : String) : List String :=
  (Token.all text.toList).map String.ofList

end FuzzyControl
