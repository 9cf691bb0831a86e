import FuzzyControl.Error

/-!
# Method selectors

A method is selected by its name or by one of its aliases, in any ASCII case.
Stored selections use the name alone, spelled exactly.
-/

namespace FuzzyControl

class Method (μ : Type) where
  /-- What is being chosen, as it is called in messages. -/
  kind : String
  all : List μ
  /-- The name under which a method is stored and shown. -/
  name : μ → String
  /-- Further names that select the method. -/
  aliases : μ → List String

namespace Method

variable {μ : Type} [Method μ]

def names (method : μ) : List String :=
  name method :: aliases method

/-- Maps the ASCII capitals of a text to small letters. -/
def lowerCase (text : String) : String :=
  text.map Char.toLower

def parse {α : Type} (text : String) : Except (Error α) μ :=
  match (all (μ := μ)).find? fun method => (names method).contains (lowerCase text) with
  | some method => .ok method
  | none => .error (.unsupportedMethod (kind μ) text)

def ofName? (text : String) : Option μ :=
  (all (μ := μ)).find? (name · == text)

end Method

end FuzzyControl
