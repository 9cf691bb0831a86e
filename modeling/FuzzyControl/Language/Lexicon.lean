import FuzzyControl.Error
import FuzzyControl.Language.Signature

/-!
# Lexicons

A lexicon says what the tokens of rule texts mean.  Keywords and names of
variables have one meaning each; the name of a value may be shared by any number
of variables, and its lexeme lists all of them.
-/

namespace FuzzyControl

inductive Owner where
  | input (key : Nat)
  | output (key : Nat)
deriving DecidableEq, Repr

/-- One reading of the name of a value. -/
structure Candidate where
  owner : Owner
  index : Nat
deriving DecidableEq, Repr

inductive Lexeme where
  | keyword (keyword : Keyword)
  | input (key : Nat)
  | output (key : Nat)
  /-- The name of a value, with its readings in the order of registration. -/
  | term (candidates : List Candidate)
deriving DecidableEq, Repr

def Owner.lexeme : Owner → Lexeme
  | .input key => .input key
  | .output key => .output key

namespace Lexeme

/-- The index of the value that the token names within one variable. -/
def resolve? (lexeme : Lexeme) (owner : Owner) : Option Nat :=
  match lexeme with
  | .term candidates => (candidates.find? (·.owner == owner)).map (·.index)
  | _ => none

end Lexeme

inductive Declaration where
  /-- A text with a meaning of its own. -/
  | unique (text : String) (lexeme : Lexeme)
  /-- A text that may be shared between variables. -/
  | shared (text : String) (candidate : Candidate)
deriving DecidableEq, Repr

/-- The declarations of a variable: its name, then its values. -/
def Signature.declarations (signature : Signature) (owner : Owner) : List Declaration :=
  .unique signature.name owner.lexeme ::
    signature.values.zipIdx.map fun entry => .shared entry.1 ⟨owner, entry.2⟩

def Vocabulary.declarations (vocabulary : Vocabulary) : List Declaration :=
  Keyword.all.map (fun keyword => .unique keyword.text (.keyword keyword)) ++
    (vocabulary.inputs.zipIdx.flatMap (fun entry => entry.1.declarations (.input entry.2)) ++
      vocabulary.outputs.zipIdx.flatMap (fun entry => entry.1.declarations (.output entry.2)))

structure Lexicon where
  entries : List (String × Lexeme)
deriving DecidableEq, Repr

namespace Lexicon

def find? (lexicon : Lexicon) (text : String) : Option Lexeme :=
  lexicon.entries.lookup text

def size (lexicon : Lexicon) : Nat :=
  lexicon.entries.length

def add (lexicon : Lexicon) (text : String) (lexeme : Lexeme) : Lexicon :=
  ⟨lexicon.entries ++ [(text, lexeme)]⟩

def update (lexicon : Lexicon) (text : String) (lexeme : Lexeme) : Lexicon :=
  ⟨lexicon.entries.map fun entry => if entry.1 = text then (text, lexeme) else entry⟩

/-- Registers one declaration; only shared texts may meet. -/
def declare (lexicon : Lexicon) : Declaration → Except LanguageError Lexicon
  | .unique text lexeme =>
      match lexicon.find? text with
      | none => .ok (lexicon.add text lexeme)
      | some _ => .error (.nameConflict text)
  | .shared text candidate =>
      match lexicon.find? text with
      | none => .ok (lexicon.add text (.term [candidate]))
      | some (.term candidates) => .ok (lexicon.update text (.term (candidates ++ [candidate])))
      | some _ => .error (.nameConflict text)

/-- Registers declarations in order; the first conflict is reported. -/
def declareAll (lexicon : Lexicon) : List Declaration → Except LanguageError Lexicon
  | [] => .ok lexicon
  | declaration :: rest =>
      match lexicon.declare declaration with
      | .ok larger => larger.declareAll rest
      | .error cause => .error cause

end Lexicon

def Vocabulary.lexicon (vocabulary : Vocabulary) : Except LanguageError Lexicon :=
  Lexicon.declareAll ⟨[]⟩ vocabulary.declarations

structure Word where
  token : String
  lexeme : Lexeme
deriving DecidableEq, Repr

/-- Looks up every token; the first unknown one is reported. -/
def Lexicon.words (lexicon : Lexicon) : List String → Except LanguageError (List Word)
  | [] => .ok []
  | token :: rest =>
      match lexicon.find? token with
      | none => .error (.unknownIdentifier token)
      | some lexeme => (lexicon.words rest).map (⟨token, lexeme⟩ :: ·)

namespace Word

def isKeyword (word : Word) (keyword : Keyword) : Bool :=
  word.lexeme == .keyword keyword

def resolve (word : Word) (position : Nat) (owner : Owner) (ownerName : String) :
    Except LanguageError Nat :=
  match word.lexeme with
  | .term _ =>
      match word.lexeme.resolve? owner with
      | some index => .ok index
      | none => .error (.unresolvedTerm word.token ownerName)
  | _ => .error (.unexpectedToken word.token position)

end Word

end FuzzyControl
