import FuzzyControl.Language.Name
import Mathlib.Data.List.TakeWhile

/-!
# Tokens of composed texts

Cutting a text into tokens can be done part by part wherever a part starts with a blank
or a bracket.  A name is one token.
-/

namespace FuzzyControl

namespace Token

theorem all_of_next?_none {text : List Char} (ended : next? text = none) : all text = [] := by
  rw [all]
  split
  · rfl
  · rename_i taken
    rw [ended] at taken
    cases taken

theorem all_of_next?_some {text token rest : List Char}
    (taken : next? text = some (token, rest)) : all text = token :: all rest := by
  rw [all]
  split
  · rename_i ended
    rw [taken] at ended
    cases ended
  · rename_i other later own
    rw [taken] at own
    cases own
    rfl

theorem all_nil : all [] = [] :=
  all_of_next?_none rfl

/-- A blank in front of a text changes no token. -/
theorem all_blank {first : Char} (blank : isBlank first = true) (rest : List Char) :
    all (first :: rest) = all rest := by
  have same : next? (first :: rest) = next? rest := by
    rw [next?, next?, List.dropWhile_cons, if_pos blank]
  cases taken : next? rest with
  | none => rw [all_of_next?_none taken, all_of_next?_none (same.trans taken)]
  | some pair => rw [all_of_next?_some taken, all_of_next?_some (same.trans taken)]

theorem isBlank_of_isBracket {first : Char} (bracket : isBracket first = true) :
    isBlank first = false := by
  simp only [isBracket, Bool.or_eq_true, beq_iff_eq] at bracket
  rcases bracket with rfl | rfl <;> decide

theorem all_bracket {first : Char} (bracket : isBracket first = true) (rest : List Char) :
    all (first :: rest) = [first] :: all rest := by
  refine all_of_next?_some ?_
  rw [next?, List.dropWhile_cons, isBlank_of_isBracket bracket, if_neg Bool.false_ne_true, split?,
    if_pos bracket]

theorem all_word {first : Char} (plain : isDelimiter first = false) (rest : List Char) :
    all (first :: rest) =
      (first :: rest.takeWhile (!isDelimiter ·)) :: all (rest.dropWhile (!isDelimiter ·)) := by
  obtain ⟨notBlank, notBracket⟩ := Bool.or_eq_false_iff.1 plain
  refine all_of_next?_some ?_
  rw [next?, List.dropWhile_cons, notBlank, if_neg Bool.false_ne_true, split?, notBracket,
    if_neg Bool.false_ne_true]

/-- The text is empty or starts with a blank or a bracket. -/
def Apart (text : List Char) : Prop :=
  ∀ first ∈ text.head?, isDelimiter first = true

namespace Apart

variable {text : List Char}

theorem takeWhile_eq_nil (apart : Apart text) : text.takeWhile (!isDelimiter ·) = [] := by
  cases text with
  | nil => rfl
  | cons first rest => simp [apart first rfl]

theorem dropWhile_eq_self (apart : Apart text) : text.dropWhile (!isDelimiter ·) = text := by
  cases text with
  | nil => rfl
  | cons first rest => simp [apart first rfl]

theorem takeWhile_append (apart : Apart text) (before : List Char) :
    (before ++ text).takeWhile (!isDelimiter ·) = before.takeWhile (!isDelimiter ·) := by
  rw [List.takeWhile_append, apart.takeWhile_eq_nil, List.append_nil]
  split
  · rename_i all_taken
    exact ((List.takeWhile_prefix _).eq_of_length all_taken).symm
  · rfl

theorem dropWhile_append (apart : Apart text) (before : List Char) :
    (before ++ text).dropWhile (!isDelimiter ·) = before.dropWhile (!isDelimiter ·) ++ text := by
  rw [List.dropWhile_append, apart.dropWhile_eq_self]
  split
  · rename_i ended
    rw [List.isEmpty_iff.1 ended, List.nil_append]
  · rfl

end Apart

/-- A text that starts apart adds its own tokens to those of any text in front of it. -/
theorem all_append {second : List Char} (apart : Apart second) (first : List Char) :
    all (first ++ second) = all first ++ all second := by
  match first with
  | [] => rw [all_nil, List.nil_append, List.nil_append]
  | head :: rest =>
      rw [List.cons_append]
      cases plain : isDelimiter head with
      | false =>
          have shorter := length_dropWhile_le (!isDelimiter ·) rest
          rw [all_word plain, all_word plain, apart.takeWhile_append, apart.dropWhile_append,
            all_append apart, List.cons_append]
      | true =>
          rcases Bool.or_eq_true_iff.1 plain with blank | bracket
          · rw [all_blank blank, all_blank blank, all_append apart]
          · rw [all_bracket bracket, all_bracket bracket, all_append apart, List.cons_append]
termination_by first.length

end Token

/-- The text is not empty and has neither blanks nor brackets. -/
def IsWord (text : String) : Prop :=
  text.toList ≠ [] ∧ ∀ character ∈ text.toList, isDelimiter character = false

theorem IsWord.of_check {text : String}
    (checked : (!text.toList.isEmpty && !text.toList.any isDelimiter) = true) : IsWord text := by
  simp only [Bool.and_eq_true, Bool.not_eq_true', List.isEmpty_eq_false_iff,
    List.any_eq_false] at checked
  exact ⟨checked.1, fun character member => Bool.eq_false_iff.2 (checked.2 character member)⟩

theorem IsWord.of_isName {text : String} (named : isName text = true) : IsWord text :=
  .of_check (Bool.and_eq_true_iff.1 named).1

theorem tokenize_append (first : String) {second : String} (apart : Token.Apart second.toList) :
    tokenize (first ++ second) = tokenize first ++ tokenize second := by
  unfold tokenize
  rw [String.toList_append, Token.all_append apart, List.map_append]

/-- A word is one token. -/
theorem IsWord.tokenize_eq {text : String} (word : IsWord text) : tokenize text = [text] := by
  obtain ⟨nonempty, plain⟩ := word
  unfold tokenize
  cases shape : text.toList with
  | nil => exact absurd shape nonempty
  | cons first rest =>
      rw [shape] at plain
      have rest_plain : ∀ character ∈ rest, (!isDelimiter character) = true := by
        intro character member
        rw [plain character (List.mem_cons_of_mem _ member)]
        rfl
      rw [Token.all_word (plain first List.mem_cons_self), List.takeWhile_eq_self_iff.2 rest_plain,
        List.dropWhile_eq_nil_iff.2 rest_plain, Token.all_nil, ← shape, List.map_singleton,
        String.ofList_toList]

theorem tokenize_spaced (first second : String) :
    tokenize (first ++ " " ++ second) = tokenize first ++ tokenize second := by
  have apart : Token.Apart (" " ++ second).toList := by
    rw [String.toList_append]
    intro character head
    cases head
    decide
  have blank : tokenize (" " ++ second) = tokenize second := by
    unfold tokenize
    rw [String.toList_append]
    exact congrArg (List.map String.ofList) (Token.all_blank rfl second.toList)
  rw [String.append_assoc, tokenize_append first apart, blank]

/-- Brackets around a text are tokens of their own. -/
theorem tokenize_enclosed (text : String) :
    tokenize ("(" ++ text ++ ")") = "(" :: (tokenize text ++ [")"]) := by
  have bracket : isBracket ')' = true := rfl
  have apart : Token.Apart ")".toList := by
    intro character head
    cases head
    decide
  have opened : tokenize ("(" ++ text) = "(" :: tokenize text := by
    unfold tokenize
    rw [String.toList_append]
    exact congrArg (List.map String.ofList) (Token.all_bracket rfl text.toList)
  have closed : tokenize ")" = [")"] := by
    have single := congrArg (List.map String.ofList) (Token.all_bracket bracket [])
    rwa [Token.all_nil] at single
  rw [tokenize_append _ apart, opened, closed, List.cons_append]

theorem tokenize_intercalate (texts : List String) :
    tokenize (String.intercalate " " texts) = texts.flatMap tokenize := by
  induction texts with
  | nil =>
      rw [String.intercalate_nil]
      exact congrArg (List.map String.ofList) Token.all_nil
  | cons first rest ih =>
      cases rest with
      | nil => rw [String.intercalate_singleton, List.flatMap_singleton]
      | cons second rest =>
          rw [String.intercalate_cons_cons, tokenize_spaced, ih, ← List.flatMap_cons]

/-- A word between texts is a token between their tokens. -/
theorem tokenize_intercalate_word {word : String} (plain : IsWord word) (first second : String)
    (rest : List String) :
    tokenize (String.intercalate (" " ++ word ++ " ") (first :: second :: rest)) =
      tokenize first ++ word :: tokenize (String.intercalate (" " ++ word ++ " ") (second :: rest))
      := by
  have parts : first ++ (" " ++ word ++ " ") = first ++ " " ++ word ++ " " := by
    simp only [String.append_assoc]
  rw [String.intercalate_cons_cons, parts, tokenize_spaced, tokenize_spaced, plain.tokenize_eq,
    List.append_assoc, List.singleton_append]

end FuzzyControl
