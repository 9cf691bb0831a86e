import FuzzyControl.Text.Token

/-!
# Scanning by offsets

A scanner keeps a text and the offset of its first byte that is still to be read, where a
character takes one to four bytes.  A text may be cut between characters only, so a scanner
that lost its place inside a character could not go on.
-/

namespace FuzzyControl

def byteLength : List Char → Nat
  | [] => 0
  | first :: rest => first.utf8Size + byteLength rest

/-- Cuts a text after a number of bytes, unless this is inside a character or behind the end. -/
def cutAt? : Nat → List Char → Option (List Char × List Char)
  | 0, text => some ([], text)
  | _ + 1, [] => none
  | count + 1, first :: rest =>
      if first.utf8Size ≤ count + 1 then
        (cutAt? (count + 1 - first.utf8Size) rest).map fun halves => (first :: halves.1, halves.2)
      else none

/-- A text, and the offset from which it is still to be read. -/
structure Scanner where
  text : List Char
  offset : Nat

namespace Scanner

def start (text : String) : Scanner :=
  ⟨text.toList, 0⟩

def from? (self : Scanner) (offset : Nat) : Option (List Char) :=
  (cutAt? offset self.text).map (·.2)

def slice? (self : Scanner) (offset length : Nat) : Option (List Char) :=
  ((self.from? offset).bind (cutAt? length)).map (·.1)

/-- The number of bytes of the first token of a text that starts with no blank. -/
def tokenLength? : List Char → Option Nat
  | [] => none
  | first :: rest =>
      if isBracket first then some 1
      else some (byteLength ((first :: rest).takeWhile (!isDelimiter ·)))

/--
Skips blanks and takes one token; the inner option is empty at the end of the text.  The outer
one is empty if the text would have to be cut inside a character.
-/
def next? (self : Scanner) : Option (Option (String × Scanner)) := do
  let rest ← self.from? self.offset
  let offset := self.offset + (byteLength rest - byteLength (rest.dropWhile isBlank))
  match tokenLength? (← self.from? offset) with
  | none => some none
  | some length =>
      let token ← self.slice? offset length
      some (some (String.ofList token, { self with offset := offset + length }))

/-- The tokens that a scanner takes until the text ends; each of them moves its offset on. -/
inductive Yields : Scanner → List String → Prop where
  | ended {self : Scanner} (finished : self.next? = some none) : Yields self []
  | token {self later : Scanner} {token : String} {tokens : List String}
      (taken : self.next? = some (some (token, later))) (advanced : self.offset < later.offset)
      (rest : Yields later tokens) : Yields self (token :: tokens)

end Scanner

end FuzzyControl
