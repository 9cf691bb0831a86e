import FuzzyControl.Proofs.Reading

/-!
# Faults of rule texts

Once there is a lexicon, reading a rule text fails for what the text says and never for
how the variables are called.
-/

namespace FuzzyControl

/-- The error is about a text that was read, and not about names that were declared. -/
def LanguageError.ConcernsText : LanguageError → Prop
  | .nameConflict _ | .invalidName _ | .duplicateTerm .. => False
  | _ => True

/-- The error is about a text, but not about its brackets. -/
def LanguageError.BesidesBrackets : LanguageError → Prop
  | .unbalancedBrackets _ | .nestingTooDeep .. => False
  | cause => cause.ConcernsText

theorem LanguageError.concernsText_of_besidesBrackets (cause : LanguageError)
    (besides : cause.BesidesBrackets) : cause.ConcernsText := by
  cases cause with
  | unbalancedBrackets position => exact besides.elim
  | nestingTooDeep position limit => exact besides.elim
  | _ => exact besides

open LanguageError Outcome

/-! ## Words and brackets -/

theorem Lexicon.blames_words (lexicon : Lexicon) (tokens : List String) :
    Blames ConcernsText (lexicon.words tokens) := by
  induction tokens with
  | nil => trivial
  | cons token rest ih =>
      unfold words
      split
      · trivial
      · exact ih.map _

theorem Word.blames_resolve (word : Word) (position : Nat) (owner : Owner) (ownerName : String) :
    Blames BesidesBrackets (word.resolve position owner ownerName) := by
  unfold resolve
  split
  · split <;> trivial
  · trivial

theorem Bracket.blames_matchFrom (limit : Option Nat) (index : Nat) (pending : List Pending)
    (entries : List BracketEntry) :
    Blames ConcernsText (matchFrom limit index pending entries) := by
  induction entries generalizing index pending with
  | nil =>
      unfold matchFrom
      split <;> trivial
  | cons entry rest ih =>
      unfold matchFrom
      split
      · exact ih _ _
      · split
        · trivial
        · exact ih _ _
      · split
        · trivial
        · exact (ih _ _).map _

/-! ## Premises -/

namespace LeafReading

variable (vocabulary : Vocabulary) (input position : Nat) (negated : Bool) (length : Nat)

theorem blames_finish (hedge : Option Hedge) (words : List Word) :
    Blames ConcernsText (finish vocabulary input position negated hedge length words) := by
  unfold finish
  split
  · trivial
  · split
    · trivial
    · exact ((Word.blames_resolve _ _ _ _).mono concernsText_of_besidesBrackets).map _

theorem blames_afterNegation (words : List Word) :
    Blames ConcernsText (afterNegation vocabulary input position negated length words) := by
  unfold afterNegation
  split
  · trivial
  · split <;> exact blames_finish vocabulary input position negated _ _ _

theorem blames_read (words : List Word) :
    Blames ConcernsText (read vocabulary input position words) := by
  unfold read
  split
  · trivial
  · split
    · split
      · exact blames_afterNegation vocabulary input position _ _ _
      · split <;> exact blames_afterNegation vocabulary input position _ _ _
    · trivial

end LeafReading

theorem blames_readItems (vocabulary : Vocabulary) (position : Nat) (words : List Word) :
    Blames ConcernsText (readItems vocabulary position words) := by
  fun_induction readItems vocabulary position words with
  | case1 position => trivial
  | case2 position word rest input _ cause fails =>
      exact (LeafReading.blames_read vocabulary input position rest).of_error fails
  | case3 position word rest input _ reading _ ih => exact ih.map _
  | case4 position word rest _ item _ ih => exact ih.map _
  | case5 position word rest _ _ => trivial

namespace Premise

theorem blames_ofItems (items : List PlacedItem) (stop : Nat) :
    Blames ConcernsText (ofItems items stop) :=
  (Bracket.blames_matchFrom _ _ _ _).bind fun _ _ => trivial

variable {premise : Premise} {inner : Nat → Nat → Except LanguageError Condition}

theorem blames_operand (inside : ∀ start stop, Blames BesidesBrackets (inner start stop))
    (stop start : Nat) : Blames BesidesBrackets (premise.operand inner stop start) := by
  unfold operand
  split
  · trivial
  · split
    · trivial
    · split
      · trivial
      · split
        · exact (inside _ _).map _
        · trivial
    · trivial
    · trivial

theorem blames_chain (inside : ∀ start stop, Blames BesidesBrackets (inner start stop))
    (stop : Nat) (sofar : Option Connective) (start : Nat) :
    Blames BesidesBrackets (premise.chain inner stop sofar start) := by
  fun_induction premise.chain inner stop sofar start with
  | case1 sofar start cause fails => exact (blames_operand inside stop start).of_error fails
  | case6 _ _ _ _ _ _ _ _ _ _ _ _ _ cause fails ih => exact ih.of_error fails
  | _ => trivial

theorem blames_build (budget first last : Nat) :
    Blames BesidesBrackets (premise.build budget first last) := by
  induction budget generalizing first last with
  | zero => trivial
  | succ budget ih =>
      simp only [build]
      split
      · trivial
      · split
        · trivial
        · split
          · rename_i fails
            exact (blames_chain ih _ _ _).of_error fails
          · trivial
          · trivial

end Premise

/-! ## Conclusions -/

namespace Conclusion

theorem blames_subject (word : Word) : Blames BesidesBrackets (subject word) := by
  unfold subject
  split <;> trivial

theorem blames_readPlain (vocabulary : Vocabulary) (position : Nat) (words : List Word) :
    Blames BesidesBrackets (readPlain vocabulary position words) := by
  unfold readPlain
  split
  · refine (blames_subject _).bind fun key _ => ?_
    split
    · split
      · trivial
      · exact (Word.blames_resolve _ _ _ _).bind fun _ _ => trivial
    · trivial
  · trivial

theorem blames_read (vocabulary : Vocabulary) (position : Nat) (words : List Word) :
    Blames ConcernsText (read vocabulary position words) := by
  refine (Bracket.blames_matchFrom _ _ _ _).bind fun _ _ => ?_
  split <;> exact (blames_readPlain vocabulary _ _).mono concernsText_of_besidesBrackets

end Conclusion

/-! ## Rule texts -/

namespace Vocabulary

theorem blames_readWords (vocabulary : Vocabulary) (words : List Word) :
    Blames ConcernsText (vocabulary.readWords words) := by
  unfold readWords
  split
  · trivial
  · split
    · trivial
    · refine (blames_readItems vocabulary _ _).bind fun items _ => ?_
      refine (Premise.blames_ofItems items _).bind fun premise _ => ?_
      refine Blames.bind ((Premise.blames_build _ _ _).mono concernsText_of_besidesBrackets)
        fun condition _ => ?_
      exact (Conclusion.blames_read vocabulary _ _).bind fun _ _ => trivial

theorem blames_readText (vocabulary : Vocabulary) (lexicon : Lexicon) (text : String) :
    Blames ConcernsText (vocabulary.readText lexicon text) :=
  (lexicon.blames_words _).bind fun words _ => vocabulary.blames_readWords words

/-- Reading fails for the names of the variables exactly if they have no lexicon. -/
theorem parse_eq_nameConflict_iff {vocabulary : Vocabulary} {text name : String} :
    vocabulary.parse text = .error (.nameConflict name) ↔
      vocabulary.lexicon = .error (.nameConflict name) := by
  unfold parse
  cases vocabulary.lexicon with
  | error cause => rw [error_bind, Except.error.injEq, Except.error.injEq]
  | ok lexicon =>
      refine ⟨fun fails => ?_, fun absurdity => nomatch absurdity⟩
      exact ((vocabulary.blames_readText lexicon text).of_error fails).elim

end Vocabulary

end FuzzyControl
