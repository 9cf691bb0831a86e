import Mathlib.Data.List.Chain
import FuzzyControl.Proofs.Tokens
import FuzzyControl.Text.Scanner

/-!
# Laid out texts

A text is tokens with blanks between them.  The tokens may be read off in exactly one way,
whatever the blanks are, and a scanner that goes by byte offsets reads them off without ever
cutting a character.
-/

namespace FuzzyControl

def IsBlankText (text : String) : Prop :=
  ∀ character ∈ text.toList, isBlank character = true

def IsToken (text : String) : Prop :=
  text = "(" ∨ text = ")" ∨ IsWord text

/-- The text of tokens with the blanks in front of each, and the blanks at the end. -/
def layOut : List (String × String) → String → String
  | [], ending => ending
  | (gap, token) :: rest, ending => gap ++ (token ++ layOut rest ending)

/-- Only blanks stand between the tokens, and at least one between two words. -/
structure IsLayout (parts : List (String × String)) (ending : String) : Prop where
  blank : ∀ part ∈ parts, IsBlankText part.1
  token : ∀ part ∈ parts, IsToken part.2
  blank_ending : IsBlankText ending
  apart : parts.IsChain fun first second => IsWord first.2 → IsWord second.2 → second.1 ≠ ""

theorem isLayout_cons_iff {gap token : String} {rest : List (String × String)}
    {ending : String} :
    IsLayout ((gap, token) :: rest) ending ↔
      IsBlankText gap ∧ IsToken token ∧
        (∀ next ∈ rest.head?, IsWord token → IsWord next.2 → next.1 ≠ "") ∧
        IsLayout rest ending := by
  constructor
  · rintro ⟨blank, tokens, blank_ending, apart⟩
    obtain ⟨gap_blank, rest_blank⟩ := List.forall_mem_cons.1 blank
    obtain ⟨is_token, rest_tokens⟩ := List.forall_mem_cons.1 tokens
    obtain ⟨next_apart, rest_apart⟩ := List.isChain_cons.1 apart
    exact ⟨gap_blank, is_token, next_apart, rest_blank, rest_tokens, blank_ending, rest_apart⟩
  · rintro ⟨gap_blank, is_token, next_apart, rest_blank, rest_tokens, blank_ending, rest_apart⟩
    exact ⟨List.forall_mem_cons.2 ⟨gap_blank, rest_blank⟩,
      List.forall_mem_cons.2 ⟨is_token, rest_tokens⟩, blank_ending,
      List.isChain_cons.2 ⟨next_apart, rest_apart⟩⟩

/-! ## Texts that start apart -/

theorem Token.apart_cons_iff {first : Char} {rest : List Char} :
    Apart (first :: rest) ↔ isDelimiter first = true :=
  ⟨fun apart => apart first rfl, fun delimits _ head => by cases head; exact delimits⟩

theorem isDelimiter_of_isBlank {character : Char} (blank : isBlank character = true) :
    isDelimiter character = true :=
  Bool.or_eq_true_iff.2 (.inl blank)

theorem isDelimiter_of_isBracket {character : Char} (bracket : isBracket character = true) :
    isDelimiter character = true :=
  Bool.or_eq_true_iff.2 (.inr bracket)

theorem IsBlankText.apart {text : String} (blank : IsBlankText text) :
    Token.Apart text.toList := fun first head =>
  isDelimiter_of_isBlank (blank first (List.mem_of_head? head))

theorem not_isWord_bracket {bracket : Char} (is_bracket : isBracket bracket = true) :
    ¬IsWord (String.singleton bracket) := by
  rintro ⟨-, plain⟩
  have delimits := plain bracket (by rw [String.toList_singleton]; exact List.mem_singleton_self _)
  rw [isDelimiter_of_isBracket is_bracket] at delimits
  cases delimits

/-- A token is a bracket or a word, and never both. -/
theorem isToken_iff {text : String} :
    IsToken text ↔
      (∃ bracket, isBracket bracket = true ∧ text = String.singleton bracket) ∨ IsWord text := by
  constructor
  · rintro (rfl | rfl | word)
    · exact .inl ⟨'(', rfl, rfl⟩
    · exact .inl ⟨')', rfl, rfl⟩
    · exact .inr word
  · rintro (⟨bracket, is_bracket, rfl⟩ | word)
    · simp only [isBracket, Bool.or_eq_true, beq_iff_eq] at is_bracket
      rcases is_bracket with rfl | rfl
      · exact .inl rfl
      · exact .inr (.inl rfl)
    · exact .inr (.inr word)

/-- A laid out text starts apart unless it starts with a word. -/
theorem IsLayout.apart_iff {parts : List (String × String)} {ending : String}
    (laid : IsLayout parts ending) :
    Token.Apart (layOut parts ending).toList ↔
      ∀ next ∈ parts.head?, IsWord next.2 → next.1 ≠ "" := by
  cases parts with
  | nil => exact ⟨fun _ _ absurdity => (nomatch absurdity), fun _ => laid.blank_ending.apart⟩
  | cons part rest =>
      obtain ⟨gap, token⟩ := part
      obtain ⟨gap_blank, is_token, -, -⟩ := isLayout_cons_iff.1 laid
      simp only [layOut, String.toList_append, List.head?_cons, Option.mem_some, forall_eq']
      cases shape : gap.toList with
      | cons first more =>
          have blank : isBlank first = true :=
            gap_blank first (shape ▸ List.mem_cons_self)
          have nonempty : gap ≠ "" := by
            rintro rfl
            cases shape
          rw [List.cons_append, Token.apart_cons_iff]
          exact ⟨fun _ _ => nonempty, fun _ => isDelimiter_of_isBlank blank⟩
      | nil =>
          rw [String.toList_eq_nil_iff.1 shape, List.nil_append]
          rcases isToken_iff.1 is_token with ⟨bracket, is_bracket, rfl⟩ | word
          · rw [String.toList_singleton, List.singleton_append, Token.apart_cons_iff]
            exact ⟨fun _ word => (not_isWord_bracket is_bracket word).elim,
              fun _ => isDelimiter_of_isBracket is_bracket⟩
          · obtain ⟨first, more, chars_eq⟩ := List.exists_cons_of_ne_nil word.1
            have plain := word.2 first (chars_eq ▸ List.mem_cons_self)
            rw [chars_eq, List.cons_append, Token.apart_cons_iff, plain]
            exact ⟨fun absurdity => (nomatch absurdity), fun apart => (apart word rfl).elim⟩

/-! ## Reading off the tokens -/

theorem tokenize_blank {gap : String} (blank : IsBlankText gap) (text : String) :
    tokenize (gap ++ text) = tokenize text := by
  unfold tokenize
  rw [String.toList_append]
  congr 1
  unfold IsBlankText at blank
  generalize gap.toList = characters at blank
  induction characters with
  | nil => rfl
  | cons first rest ih =>
      rw [List.forall_mem_cons] at blank
      rw [List.cons_append, Token.all_blank blank.1, ih blank.2]

theorem tokenize_bracket {bracket : Char} (is_bracket : isBracket bracket = true) (text : String) :
    tokenize (String.singleton bracket ++ text) = String.singleton bracket :: tokenize text := by
  unfold tokenize
  rw [String.toList_append, String.toList_singleton, List.singleton_append,
    Token.all_bracket is_bracket, List.map_cons, String.singleton_eq_ofList]

/-- The blanks of a laid out text do not matter. -/
theorem IsLayout.tokenize_eq {parts : List (String × String)} {ending : String}
    (laid : IsLayout parts ending) : tokenize (layOut parts ending) = parts.map (·.2) := by
  induction parts with
  | nil =>
      have empty := tokenize_blank laid.blank_ending ""
      rw [String.append_empty] at empty
      exact empty.trans (congrArg (List.map String.ofList) Token.all_nil)
  | cons part rest ih =>
      obtain ⟨gap, token⟩ := part
      obtain ⟨gap_blank, is_token, next_apart, rest_laid⟩ := isLayout_cons_iff.1 laid
      rw [layOut, tokenize_blank gap_blank, List.map_cons, ← ih rest_laid]
      rcases isToken_iff.1 is_token with ⟨bracket, is_bracket, rfl⟩ | word
      · exact tokenize_bracket is_bracket _
      · have apart := rest_laid.apart_iff.2 fun next head => next_apart next head word
        rw [tokenize_append token apart, word.tokenize_eq, List.singleton_append]

/-! ## Every text is laid out -/

theorem exists_layout_blank {first : Char} (blank : isBlank first = true)
    {parts : List (String × String)} {ending : String} (laid : IsLayout parts ending) :
    ∃ others last, IsLayout others last ∧
      layOut others last = String.singleton first ++ layOut parts ending := by
  have extended {gap : String} (gap_blank : IsBlankText gap) :
      IsBlankText (String.singleton first ++ gap) := by
    intro character member
    rw [String.toList_append, String.toList_singleton, List.singleton_append] at member
    rcases List.mem_cons.1 member with rfl | inside
    · exact blank
    · exact gap_blank character inside
  cases parts with
  | nil =>
      exact ⟨[], String.singleton first ++ ending,
        ⟨List.forall_mem_nil _, List.forall_mem_nil _, extended laid.blank_ending, .nil⟩, rfl⟩
  | cons part rest =>
      obtain ⟨gap, token⟩ := part
      obtain ⟨gap_blank, laid_rest⟩ := isLayout_cons_iff.1 laid
      exact ⟨(String.singleton first ++ gap, token) :: rest, ending,
        isLayout_cons_iff.2 ⟨extended gap_blank, laid_rest⟩, String.append_assoc⟩

theorem isWord_of_takeWhile {first : Char} (plain : isDelimiter first = false)
    (rest : List Char) : IsWord (String.ofList (first :: rest.takeWhile (!isDelimiter ·))) := by
  refine ⟨by rw [String.toList_ofList]; exact List.cons_ne_nil _ _, fun character member => ?_⟩
  rw [String.toList_ofList] at member
  rcases List.mem_cons.1 member with rfl | inside
  · exact plain
  · have kept := List.mem_takeWhile_imp inside
    simpa using kept

theorem apart_dropWhile (text : List Char) : Token.Apart (text.dropWhile (!isDelimiter ·)) := by
  intro first head
  have stops := List.head?_dropWhile_not (!isDelimiter ·) text
  rw [Option.mem_def.1 head] at stops
  simpa using stops

/-- Every text is tokens with blanks between them. -/
theorem exists_layout (text : List Char) :
    ∃ parts ending, IsLayout parts ending ∧ layOut parts ending = String.ofList text := by
  match text with
  | [] =>
      exact ⟨[], "",
        ⟨List.forall_mem_nil _, List.forall_mem_nil _, List.forall_mem_nil _, .nil⟩, rfl⟩
  | first :: rest =>
      have cons_eq (more : List Char) :
          String.ofList (first :: more) = String.singleton first ++ String.ofList more := by
        rw [String.singleton_eq_ofList, ← String.ofList_append, List.singleton_append]
      cases plain : isDelimiter first with
      | false =>
          have shorter := Token.length_dropWhile_le (!isDelimiter ·) rest
          obtain ⟨parts, ending, laid, text_eq⟩ :=
            exists_layout (rest.dropWhile (!isDelimiter ·))
          have word := isWord_of_takeWhile plain rest
          have apart : Token.Apart (layOut parts ending).toList := by
            rw [text_eq, String.toList_ofList]
            exact apart_dropWhile rest
          refine ⟨("", _) :: parts, ending, isLayout_cons_iff.2 ⟨List.forall_mem_nil _,
            .inr (.inr word), fun next head _ => laid.apart_iff.1 apart next head, laid⟩, ?_⟩
          rw [layOut, text_eq, String.empty_append, ← String.ofList_append, List.cons_append,
            List.takeWhile_append_dropWhile]
      | true =>
          obtain ⟨parts, ending, laid, text_eq⟩ := exists_layout rest
          rcases Bool.or_eq_true_iff.1 plain with blank | bracket
          · obtain ⟨others, last, laid_others, others_eq⟩ := exists_layout_blank blank laid
            exact ⟨others, last, laid_others, by rw [others_eq, text_eq, cons_eq]⟩
          · have is_token := isToken_iff.2 (.inl ⟨first, bracket, rfl⟩)
            refine ⟨("", String.singleton first) :: parts, ending,
              isLayout_cons_iff.2 ⟨List.forall_mem_nil _, is_token,
                fun _ _ word => (not_isWord_bracket bracket word).elim, laid⟩, ?_⟩
            rw [layOut, text_eq, String.empty_append, cons_eq]
termination_by text.length

/-! ## What is left of a text -/

theorem IsToken.tokenize_eq {token : String} (is_token : IsToken token) :
    tokenize token = [token] := by
  have alone : IsLayout [("", token)] "" :=
    ⟨List.forall_mem_singleton.2 (List.forall_mem_nil _), List.forall_mem_singleton.2 is_token,
      List.forall_mem_nil _, .singleton _⟩
  have read := alone.tokenize_eq
  rwa [layOut, layOut, String.append_empty, String.empty_append] at read

/-- No token contains a blank. -/
theorem IsToken.filter_eq {token : String} (is_token : IsToken token) :
    token.toList.filter (!isBlank ·) = token.toList := by
  refine List.filter_eq_self.2 fun character member => ?_
  rcases isToken_iff.1 is_token with ⟨bracket, is_bracket, rfl⟩ | word
  · rw [String.toList_singleton] at member
    rw [List.mem_singleton.1 member, Token.isBlank_of_isBracket is_bracket]
    rfl
  · rw [(Bool.or_eq_false_iff.1 (word.2 character member)).1]
    rfl

theorem IsBlankText.filter_eq {text : String} (blank : IsBlankText text) :
    text.toList.filter (!isBlank ·) = [] := by
  refine List.filter_eq_nil_iff.2 fun character member => ?_
  rw [blank character member]
  exact Bool.false_ne_true

/-- Without its blanks a laid out text is its tokens in a row. -/
theorem IsLayout.filter_eq {parts : List (String × String)} {ending : String}
    (laid : IsLayout parts ending) :
    (layOut parts ending).toList.filter (!isBlank ·) =
      (String.join (parts.map (·.2))).toList := by
  induction parts with
  | nil => exact laid.blank_ending.filter_eq
  | cons part rest ih =>
      obtain ⟨gap, token⟩ := part
      obtain ⟨gap_blank, is_token, -, rest_laid⟩ := isLayout_cons_iff.1 laid
      rw [layOut, String.toList_append, String.toList_append, List.filter_append,
        List.filter_append, gap_blank.filter_eq, is_token.filter_eq, ih rest_laid,
        List.nil_append, List.map_cons, String.join_cons, String.toList_append]

theorem isToken_of_mem_tokenize {text token : String} (member : token ∈ tokenize text) :
    IsToken token := by
  obtain ⟨parts, ending, laid, text_eq⟩ := exists_layout text.toList
  rw [String.ofList_toList] at text_eq
  rw [← text_eq, laid.tokenize_eq] at member
  obtain ⟨part, part_member, rfl⟩ := List.mem_map.1 member
  exact laid.token part part_member

end FuzzyControl
