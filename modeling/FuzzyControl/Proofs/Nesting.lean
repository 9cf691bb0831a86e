import Mathlib.Data.List.Infix
import FuzzyControl.Proofs.Grammar

/-!
# Faults of brackets

What can be wrong with the brackets among tokens, said by counting them: a bracket is opened
that is one too many, a bracket is closed that was never opened, or a bracket is never closed.
No tokens have two of these faults, and tokens without a fault are balanced.
-/

namespace FuzzyControl

namespace Grammar

/-- No closing bracket is without a partner, and brackets nest within the limit. -/
structure Sound (limit : Option Nat) (tokens : List String) : Prop where
  covered : ∀ before, before <+: tokens → 0 ≤ openAfter before
  nested : ∀ bound ∈ limit, NestedWithin bound tokens

def Balanced (tokens : List String) : Prop :=
  Sound none tokens ∧ openAfter tokens = 0

/--
What is wrong with the brackets among tokens, the first of which stands at `start`: the first
bracket that nests too deep or has no partner, reading from the left, and otherwise the
rightmost bracket that is never closed.
-/
inductive BracketFault (limit : Option Nat) (start : Nat) (tokens : List String) :
    LanguageError → Prop where
  /-- As many brackets are open as the limit allows, and one more is opened. -/
  | tooDeep {before after : List String} {bound : Nat} (limited : limit = some bound)
      (split : tokens = before ++ Keyword.openBracket.text :: after)
      (sound : Sound limit before) (full : openAfter before = bound) :
      BracketFault limit start tokens (.nestingTooDeep (start + before.length) bound)
  /-- No bracket is open, and one is closed. -/
  | unopened {before after : List String}
      (split : tokens = before ++ Keyword.closeBracket.text :: after)
      (sound : Sound limit before) (empty : openAfter before = 0) :
      BracketFault limit start tokens (.unbalancedBrackets (start + before.length))
  /-- A bracket stays open, and all brackets behind it are partners of each other. -/
  | unclosed {before after : List String}
      (split : tokens = before ++ Keyword.openBracket.text :: after)
      (sound : Sound limit tokens) (rightmost : Balanced after) :
      BracketFault limit start tokens (.unbalancedBrackets (start + before.length))

variable {limit : Option Nat} {start : Nat} {tokens : List String}

/-! ## Counting -/

theorem openAfter_nil : openAfter [] = 0 :=
  rfl

/-- Soundness is checked by counting the brackets of all initial segments. -/
theorem sound_iff_inits : Sound limit tokens ↔ ∀ before ∈ tokens.inits,
    0 ≤ openAfter before ∧ ∀ bound ∈ limit, openAfter before ≤ (bound : Int) := by
  simp only [List.mem_inits]
  constructor
  · intro sound before initial
    exact ⟨sound.covered before initial, fun bound limited =>
      sound.nested bound limited before initial⟩
  · intro checked
    exact ⟨fun before initial => (checked before initial).1, fun bound limited before initial =>
      (checked before initial).2 bound limited⟩

instance (limit : Option Nat) (tokens : List String) : Decidable (Sound limit tokens) :=
  decidable_of_iff _ sound_iff_inits.symm

instance (tokens : List String) : Decidable (Balanced tokens) :=
  inferInstanceAs (Decidable (_ ∧ _))

theorem Sound.of_prefix {before : List String} (sound : Sound limit tokens)
    (initial : before <+: tokens) : Sound limit before :=
  ⟨fun _ inner => sound.covered _ (inner.trans initial),
    fun bound limited _ inner => sound.nested bound limited _ (inner.trans initial)⟩

theorem Sound.nil : Sound limit [] := by
  constructor
  · intro before initial
    obtain rfl := List.prefix_nil.1 initial
    exact Int.le_of_eq openAfter_nil.symm
  · intro bound _ before initial
    rw [List.prefix_nil.1 initial, openAfter_nil]
    exact Int.natCast_nonneg bound

theorem Sound.snoc {token : String} (sound : Sound limit tokens)
    (covered : 0 ≤ openAfter (tokens ++ [token]))
    (nested : ∀ bound ∈ limit, openAfter (tokens ++ [token]) ≤ (bound : Int)) :
    Sound limit (tokens ++ [token]) := by
  constructor
  · intro before initial
    rcases List.prefix_concat_iff.1 initial with rfl | inner
    · exact covered
    · exact sound.covered before inner
  · intro bound limited before initial
    rcases List.prefix_concat_iff.1 initial with rfl | inner
    · exact nested bound limited
    · exact sound.nested bound limited before inner

theorem Sound.openAfter_nonneg (sound : Sound limit tokens) : 0 ≤ openAfter tokens :=
  sound.covered tokens List.prefix_rfl

/-- A token that opens nothing breaks nothing, and one that closes a bracket neither. -/
theorem Sound.snoc_of_le {token : String} (sound : Sound limit tokens)
    (covered : 0 ≤ openAfter tokens + openAfter [token]) (le : openAfter [token] ≤ 0) :
    Sound limit (tokens ++ [token]) := by
  refine sound.snoc ?_ fun bound limited => ?_
  · rwa [openAfter_append]
  · have within := sound.nested bound limited tokens List.prefix_rfl
    rw [openAfter_append]
    omega

theorem Balanced.nil : Balanced [] :=
  ⟨.nil, rfl⟩

theorem Balanced.append {first second : List String} (one : Balanced first)
    (two : Balanced second) : Balanced (first ++ second) := by
  refine ⟨⟨fun before initial => ?_, fun _ limited => nomatch limited⟩, ?_⟩
  · rcases List.prefix_or_prefix_of_prefix initial (List.prefix_append first second) with
      inside | ⟨later, rfl⟩
    · exact one.1.covered before inside
    · have inside := two.1.covered later ((List.prefix_append_right_inj first).1 initial)
      rwa [openAfter_append, one.2, Int.zero_add]
  · rw [openAfter_append, one.2, two.2]
    rfl

theorem Balanced.of_not_bracket {token : String}
    (plain : ∀ bracket : Bracket, token ≠ bracket.keyword.text) : Balanced [token] := by
  have none_open : openAfter [token] = 0 := openAfter_of_not_bracket fun other member => by
    rw [List.mem_singleton.1 member]
    exact ⟨plain .opening, plain .closing⟩
  exact ⟨Sound.nil.snoc (Int.le_of_eq none_open.symm) (fun _ limited => nomatch limited), none_open⟩

theorem Balanced.enclosed {inner : List String} (balanced : Balanced inner) :
    Balanced (Keyword.openBracket.text :: (inner ++ [Keyword.closeBracket.text])) := by
  have opened : Sound none (Keyword.openBracket.text :: inner) := by
    refine ⟨fun before initial => ?_, fun _ limited => nomatch limited⟩
    rcases List.prefix_cons_iff.1 initial with rfl | ⟨later, rfl, inside⟩
    · exact Int.le_refl 0
    · have later_covered := balanced.1.covered later inside
      rw [openAfter_cons, openAfter_opening]
      omega
  have closed :
      openAfter (Keyword.openBracket.text :: inner ++ [Keyword.closeBracket.text]) = 0 := by
    rw [openAfter_append, openAfter_cons, openAfter_opening, openAfter_closing, balanced.2]
    rfl
  exact ⟨opened.snoc (Int.le_of_eq closed.symm) (fun _ limited => nomatch limited), closed⟩

/-! ## One fault at most -/

/-- Two positions in tokens are the same, or one of them is in front of the other. -/
theorem split_cases {before after before' after' : List String} {token token' : String}
    (same : before ++ token :: after = before' ++ token' :: after') :
    (before = before' ∧ token = token') ∨
      (∃ middle, before' = before ++ token :: middle ∧ after = middle ++ token' :: after') ∨
      ∃ middle, before = before' ++ token' :: middle ∧ after' = middle ++ token :: after := by
  rcases List.append_eq_append_iff.1 same with ⟨others, rfl, rest⟩ | ⟨others, rfl, rest⟩
  · cases others with
    | nil => exact .inl ⟨(List.append_nil _).symm, (List.cons.inj rest).1⟩
    | cons first middle =>
        obtain ⟨rfl, rfl⟩ := List.cons.inj rest
        exact .inr (.inl ⟨middle, rfl, rfl⟩)
  · cases others with
    | nil => exact .inl ⟨List.append_nil _, (List.cons.inj rest).1.symm⟩
    | cons first middle =>
        obtain ⟨rfl, rfl⟩ := List.cons.inj rest
        exact .inr (.inr ⟨middle, rfl, rfl⟩)

def Breaks (limit : Option Nat) (before : List String) (token : String) : Prop :=
  Sound limit before ∧ ¬Sound limit (before ++ [token])

theorem breaks_opening {before : List String} {bound : Nat} (sound : Sound (some bound) before)
    (full : openAfter before = bound) : Breaks (some bound) before Keyword.openBracket.text := by
  refine ⟨sound, fun longer => ?_⟩
  have nested := longer.nested bound rfl _ List.prefix_rfl
  rw [openAfter_append, openAfter_opening, full] at nested
  omega

theorem breaks_closing {before : List String} (sound : Sound limit before)
    (empty : openAfter before = 0) : Breaks limit before Keyword.closeBracket.text := by
  refine ⟨sound, fun longer => ?_⟩
  have covered := longer.openAfter_nonneg
  rw [openAfter_append, openAfter_closing, empty] at covered
  omega

/-- Tokens that are sound up to the end break nowhere. -/
theorem Breaks.not_sound {before after : List String} {token : String}
    (breaks : Breaks limit before token) : ¬Sound limit (before ++ token :: after) := fun sound =>
  breaks.2 (sound.of_prefix ⟨after, by rw [List.append_assoc, List.singleton_append]⟩)

/-- Tokens break at one place only. -/
theorem Breaks.unique {before after before' after' : List String} {token token' : String}
    (same : before ++ token :: after = before' ++ token' :: after')
    (breaks : Breaks limit before token) (breaks' : Breaks limit before' token') :
    before = before' ∧ token = token' := by
  rcases split_cases same with equal | ⟨middle, rfl, _⟩ | ⟨middle, rfl, _⟩
  · exact equal
  · exact (breaks.not_sound breaks'.1).elim
  · exact (breaks'.not_sound breaks.1).elim

/-- Only one bracket has balanced tokens behind it and no partner. -/
theorem unclosed_unique {before after before' after' : List String}
    (same : before ++ Keyword.openBracket.text :: after =
      before' ++ Keyword.openBracket.text :: after')
    (balanced : Balanced after) (balanced' : Balanced after') : before = before' := by
  have impossible {middle rest : List String}
      (whole : Balanced (middle ++ Keyword.openBracket.text :: rest)) (inner : Balanced rest) :
      False := by
    have covered := whole.1.covered middle (List.prefix_append _ _)
    have closed := whole.2
    rw [openAfter_append, openAfter_cons, openAfter_opening, inner.2] at closed
    omega
  rcases split_cases same with ⟨equal, _⟩ | ⟨middle, _, rfl⟩ | ⟨middle, _, rfl⟩
  · exact equal
  · exact (impossible balanced balanced').elim
  · exact (impossible balanced' balanced).elim

theorem opening_ne_closing : Keyword.openBracket.text ≠ Keyword.closeBracket.text := by
  decide

/-- Tokens have one fault of brackets at most. -/
theorem BracketFault.unique {cause cause' : LanguageError}
    (fault : BracketFault limit start tokens cause)
    (fault' : BracketFault limit start tokens cause') : cause = cause' := by
  cases fault with
  | tooDeep limited split sound full =>
      subst limited split
      have breaks := breaks_opening sound full
      cases fault' with
      | tooDeep limited' split' sound' full' =>
          cases limited'
          rw [(breaks.unique split' (breaks_opening sound' full')).1]
      | unopened split' sound' empty' =>
          exact absurd (breaks.unique split' (breaks_closing sound' empty')).2 opening_ne_closing
      | unclosed _ sound' _ => exact (breaks.not_sound sound').elim
  | unopened split sound empty =>
      subst split
      have breaks := breaks_closing sound empty
      cases fault' with
      | tooDeep limited' split' sound' full' =>
          subst limited'
          have same := (breaks.unique split' (breaks_opening sound' full')).2
          exact absurd same.symm opening_ne_closing
      | unopened split' sound' empty' =>
          rw [(breaks.unique split' (breaks_closing sound' empty')).1]
      | unclosed _ sound' _ => exact (breaks.not_sound sound').elim
  | unclosed split sound rightmost =>
      subst split
      cases fault' with
      | tooDeep limited' split' sound' full' =>
          subst limited'
          rw [split'] at sound
          exact ((breaks_opening sound' full').not_sound sound).elim
      | unopened split' sound' empty' =>
          rw [split'] at sound
          exact ((breaks_closing sound' empty').not_sound sound).elim
      | unclosed split' _ rightmost' => rw [unclosed_unique split' rightmost rightmost']

/-- Balanced tokens have no fault. -/
theorem BracketFault.not_balanced {cause : LanguageError}
    (fault : BracketFault limit start tokens cause) (sound : Sound limit tokens) :
    openAfter tokens ≠ 0 := by
  cases fault with
  | tooDeep limited split sound' full =>
      subst limited split
      exact ((breaks_opening sound' full).not_sound sound).elim
  | unopened split sound' empty =>
      subst split
      exact ((breaks_closing sound' empty).not_sound sound).elim
  | unclosed split sound' rightmost =>
      subst split
      have covered := sound.of_prefix (List.prefix_append _ _) |>.openAfter_nonneg
      rw [openAfter_append, openAfter_cons, openAfter_opening, rightmost.2]
      omega

end Grammar

end FuzzyControl
