import FuzzyControl.Error

/-!
# Brackets

Brackets are matched in one scan from the left.  The first bracket that nests too
deep or has no partner is reported; if the text ends first, the rightmost opening
bracket without a partner is.
-/

namespace FuzzyControl

inductive Bracket where
  | opening
  | closing
deriving DecidableEq, Repr

/-- An entry of a text: its position, and its bracket if it is one. -/
structure BracketEntry where
  position : Nat
  bracket : Option Bracket
deriving DecidableEq, Repr

namespace Bracket

/-- An opening bracket that waits for its partner. -/
structure Pending where
  index : Nat
  position : Nat
deriving DecidableEq, Repr

/-- The limit, if so many open brackets are beyond it. -/
def exceeded? (limit : Option Nat) (depth : Nat) : Option Nat :=
  limit.filter (· < depth)

/-- Matches the entries from `index` on; the innermost pending bracket comes first. -/
def matchFrom (limit : Option Nat) (index : Nat) (pending : List Pending) :
    List BracketEntry → Except LanguageError (List (Nat × Nat))
  | [] =>
      match pending with
      | [] => .ok []
      | innermost :: _ => .error (.unbalancedBrackets innermost.position)
  | entry :: rest =>
      match entry.bracket with
      | none => matchFrom limit (index + 1) pending rest
      | some .opening =>
          match exceeded? limit (pending.length + 1) with
          | some bound => .error (.nestingTooDeep entry.position bound)
          | none => matchFrom limit (index + 1) (⟨index, entry.position⟩ :: pending) rest
      | some .closing =>
          match pending with
          | [] => .error (.unbalancedBrackets entry.position)
          | innermost :: outer =>
              (matchFrom limit (index + 1) outer rest).map ((innermost.index, index) :: ·)

/-- The pairs of partners by their indices, with at most `limit` brackets open at once. -/
def pairs (limit : Option Nat) (entries : List BracketEntry) :
    Except LanguageError (List (Nat × Nat)) :=
  matchFrom limit 0 [] entries

end Bracket

end FuzzyControl
