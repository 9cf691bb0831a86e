import FuzzyControl.Proofs.Layout
import FuzzyControl.Text.Scanner

/-!
# Scanning loses nothing

A scanner that goes by byte offsets takes the tokens of a text one after another.  It stays
between characters, moves on with every token and reaches the end of every text.
-/

namespace FuzzyControl

/-! ## Cuts -/

theorem byteLength_append (first second : List Char) :
    byteLength (first ++ second) = byteLength first + byteLength second := by
  induction first with
  | nil => exact (Nat.zero_add _).symm
  | cons head rest ih => rw [List.cons_append, byteLength, byteLength, ih, Nat.add_assoc]

/-- A text may be cut behind any of its characters. -/
theorem cutAt?_byteLength (before after : List Char) :
    cutAt? (byteLength before) (before ++ after) = some (before, after) := by
  induction before with
  | nil => cases after <;> rfl
  | cons first rest ih =>
      have positive := first.utf8Size_pos
      obtain ⟨count, count_eq⟩ : ∃ count, byteLength (first :: rest) = count + 1 :=
        ⟨byteLength (first :: rest) - 1, by rw [byteLength]; omega⟩
      have remaining : count + 1 - first.utf8Size = byteLength rest := by
        rw [← count_eq, byteLength, Nat.add_sub_cancel_left]
      have fits : first.utf8Size ≤ count + 1 := by
        rw [← count_eq, byteLength]
        exact Nat.le_add_right _ _
      rw [count_eq, List.cons_append, cutAt?, if_pos fits, remaining, ih, Option.map_some]

namespace Scanner

theorem from?_byteLength (before rest : List Char) (offset : Nat) :
    (Scanner.mk (before ++ rest) offset).from? (byteLength before) = some rest := by
  rw [from?, cutAt?_byteLength, Option.map_some]

theorem slice?_byteLength (before token rest : List Char) (offset : Nat) :
    (Scanner.mk (before ++ (token ++ rest)) offset).slice? (byteLength before)
      (byteLength token) = some token := by
  rw [slice?, from?_byteLength, Option.bind_some, cutAt?_byteLength, Option.map_some]

/-! ## Tokens -/

theorem tokenLength?_eq_none {text : List Char} (ended : Token.split? text = none) :
    tokenLength? text = none := by
  cases text with
  | nil => rfl
  | cons first rest =>
      rw [Token.split?] at ended
      split at ended <;> simp only [reduceCtorEq] at ended

/-- The first token is as long as the scanner takes it to be, and not empty. -/
theorem tokenLength?_eq_some {text token rest : List Char}
    (solid : ∀ first ∈ text.head?, isBlank first = false)
    (taken : Token.split? text = some (token, rest)) :
    text = token ++ rest ∧ tokenLength? text = some (byteLength token) ∧ 0 < byteLength token := by
  cases text with
  | nil => cases taken
  | cons first more =>
      by_cases bracket : isBracket first = true
      · rw [Token.split?, if_pos bracket] at taken
        cases taken
        have one_byte : byteLength [first] = 1 := by
          simp only [isBracket, Bool.or_eq_true, beq_iff_eq] at bracket
          rcases bracket with rfl | rfl <;> rfl
        refine ⟨rfl, ?_, ?_⟩
        · rw [tokenLength?, if_pos bracket, one_byte]
        · rw [one_byte]
          exact Nat.one_pos
      · rw [Token.split?, if_neg bracket] at taken
        cases taken
        have plain : (!isDelimiter first) = true := by
          rw [isDelimiter, solid first rfl, Bool.eq_false_iff.2 bracket]
          rfl
        refine ⟨?_, ?_, ?_⟩
        · rw [List.cons_append, List.takeWhile_append_dropWhile]
        · rw [tokenLength?, if_neg bracket, List.takeWhile_cons, if_pos plain]
        · rw [byteLength]
          exact Nat.add_pos_left first.utf8Size_pos _

theorem head_dropWhile_isBlank (text : List Char) :
    ∀ first ∈ (text.dropWhile isBlank).head?, isBlank first = false := by
  intro first head
  have stops := List.head?_dropWhile_not isBlank text
  rw [Option.mem_def.1 head] at stops
  simpa using stops

/-- Where the blanks end is behind the leading blanks. -/
theorem byteLength_skipped (before rest : List Char) :
    byteLength before + (byteLength rest - byteLength (rest.dropWhile isBlank)) =
      byteLength (before ++ rest.takeWhile isBlank) := by
  have lengths : byteLength rest =
      byteLength (rest.takeWhile isBlank) + byteLength (rest.dropWhile isBlank) := by
    rw [← byteLength_append, List.takeWhile_append_dropWhile]
  rw [byteLength_append, lengths, Nat.add_sub_cancel]

theorem from?_skipped (before rest : List Char) (offset : Nat) :
    (Scanner.mk (before ++ rest) offset).from? (byteLength (before ++ rest.takeWhile isBlank)) =
      some (rest.dropWhile isBlank) := by
  have text_eq : before ++ rest =
      (before ++ rest.takeWhile isBlank) ++ rest.dropWhile isBlank := by
    rw [List.append_assoc, List.takeWhile_append_dropWhile]
  rw [text_eq, from?_byteLength]

/-- At the end of a text the scanner finds no token. -/
theorem next?_eq_ended (before : List Char) {rest : List Char}
    (ended : Token.next? rest = none) :
    (Scanner.mk (before ++ rest) (byteLength before)).next? = some none := by
  simp only [next?, from?_byteLength, byteLength_skipped, from?_skipped,
    tokenLength?_eq_none ended, Option.bind_eq_bind, Option.bind_some]

/-- Everywhere else it takes the next token, and stops between two characters again. -/
theorem next?_eq_taken (before : List Char) {rest token later : List Char}
    (taken : Token.next? rest = some (token, later)) :
    ∃ passed, before ++ rest = passed ++ later ∧ byteLength before < byteLength passed ∧
      (Scanner.mk (before ++ rest) (byteLength before)).next? =
        some (some (String.ofList token, ⟨before ++ rest, byteLength passed⟩)) := by
  obtain ⟨text_eq, length_eq, positive⟩ :=
    tokenLength?_eq_some (head_dropWhile_isBlank rest) taken
  have whole : before ++ rest = before ++ rest.takeWhile isBlank ++ (token ++ later) := by
    rw [← text_eq, List.append_assoc, List.takeWhile_append_dropWhile]
  refine ⟨before ++ rest.takeWhile isBlank ++ token, ?_, ?_, ?_⟩
  · rw [whole, List.append_assoc _ token later]
  · rw [byteLength_append, byteLength_append]
    omega
  · have sliced := slice?_byteLength (before ++ rest.takeWhile isBlank) token later
      (byteLength before)
    rw [← whole] at sliced
    simp only [next?, from?_byteLength, byteLength_skipped, from?_skipped, length_eq,
      Option.bind_eq_bind, Option.bind_some, sliced, byteLength_append _ token]

/-- From any place between two characters the scanner takes all tokens that are left. -/
theorem yields (before rest : List Char) :
    Yields ⟨before ++ rest, byteLength before⟩ ((Token.all rest).map String.ofList) := by
  cases next : Token.next? rest with
  | none =>
      rw [Token.all_of_next?_none next]
      exact .ended (next?_eq_ended before next)
  | some pair =>
      obtain ⟨token, later⟩ := pair
      have shorter := Token.length_lt_of_next? next
      obtain ⟨passed, text_eq, advanced, taken⟩ := next?_eq_taken before next
      have rest_yields := yields passed later
      rw [← text_eq] at rest_yields
      rw [Token.all_of_next?_some next, List.map_cons]
      exact .token taken advanced rest_yields
termination_by rest.length

end Scanner

/--
The tokens of a text are the ones of its only decomposition into tokens and blanks.  Nothing
but blanks is lost, joining the tokens by spaces changes none of them, and a scanner takes
each of them in turn and then ends.
-/
theorem tokenize_lossless :
    (∀ text tokens, tokenize text = tokens ↔
      ∃ parts ending, IsLayout parts ending ∧ layOut parts ending = text ∧
        parts.map (·.2) = tokens) ∧
    ∀ text,
      String.join (tokenize text) = String.ofList (text.toList.filter (!isBlank ·)) ∧
      tokenize (String.intercalate " " (tokenize text)) = tokenize text ∧
      Scanner.Yields (Scanner.start text) (tokenize text) := by
  refine ⟨fun text tokens => ⟨?_, ?_⟩, fun text => ⟨?_, ?_, ?_⟩⟩
  · rintro rfl
    obtain ⟨parts, ending, laid, text_eq⟩ := exists_layout text.toList
    rw [String.ofList_toList] at text_eq
    exact ⟨parts, ending, laid, text_eq, by rw [← text_eq, laid.tokenize_eq]⟩
  · rintro ⟨parts, ending, laid, rfl, rfl⟩
    exact laid.tokenize_eq
  · obtain ⟨parts, ending, laid, text_eq⟩ := exists_layout text.toList
    rw [String.ofList_toList] at text_eq
    rw [← text_eq, laid.filter_eq, laid.tokenize_eq, String.ofList_toList]
  · have each : ∀ token ∈ tokenize text, tokenize token = [token] := fun token member =>
      (isToken_of_mem_tokenize member).tokenize_eq
    rw [tokenize_intercalate, List.flatMap_congr each, List.flatMap_singleton']
  · exact Scanner.yields [] text.toList

end FuzzyControl
