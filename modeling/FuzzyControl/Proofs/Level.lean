import FuzzyControl.Proofs.Nesting

/-!
# Levels of brackets

Connectives stand on one level if the tokens between them are balanced: the same innermost
bracket pair is around them, or none is.  The first connective of a level leads it, and every
other connective of the level that differs from the leader is mixed in.
-/

namespace FuzzyControl

namespace Grammar

/-- The connective stands behind `earlier`, and on the level on which the tokens end. -/
def OnLevel (connective : Connective) (earlier tokens : List String) : Prop :=
  ∃ between, tokens = earlier ++ connective.keyword.text :: between ∧ Balanced between

/-- No connective stands on the level on which the tokens end. -/
def Leaderless (tokens : List String) : Prop :=
  ∀ connective earlier, ¬OnLevel connective earlier tokens

/-- The connective is the first one on the level on which the tokens end. -/
def Leads (connective : Connective) (tokens : List String) : Prop :=
  ∃ earlier, OnLevel connective earlier tokens ∧ Leaderless earlier

/-- Behind the tokens, the connective differs from the first one of its level. -/
def Mixes (tokens : List String) (connective : Connective) : Prop :=
  ∃ first, Leads first tokens ∧ first ≠ connective

def LedBy : Option Connective → List String → Prop
  | none, tokens => Leaderless tokens
  | some connective, tokens => Leads connective tokens

/-- No connective of the tokens is mixed in, where `front` stands in front of them. -/
def Agreeing (front tokens : List String) : Prop :=
  ∀ before connective after, tokens = before ++ connective.keyword.text :: after →
    ¬Mixes (front ++ before) connective

/-- Of the tokens, with `front` in front of them, the leftmost mixed in is behind `before`. -/
def FirstMixed (front tokens before : List String) : Prop :=
  ∃ connective after, tokens = before ++ connective.keyword.text :: after ∧
    Mixes (front ++ before) connective ∧ Agreeing front before

variable {tokens more front before : List String} {connective : Connective}

theorem connective_text_injective {other : Connective}
    (same : connective.keyword.text = other.keyword.text) : connective = other := by
  cases connective <;> cases other <;> first | rfl | cases Keyword.text_injective same

theorem connective_ne_bracket (connective : Connective) (bracket : Bracket) :
    connective.keyword.text ≠ bracket.keyword.text := by
  intro same
  cases connective <;> cases bracket <;> cases Keyword.text_injective same

theorem balanced_connective (connective : Connective) : Balanced [connective.keyword.text] :=
  .of_not_bracket (connective_ne_bracket connective)

/-- What stands in front of balanced tokens in balanced ones is balanced. -/
theorem Balanced.of_append (whole : Balanced (tokens ++ more)) (later : Balanced more) :
    Balanced tokens := by
  have closed := whole.2
  rw [openAfter_append, later.2, Int.add_zero] at closed
  exact ⟨Sound.of_prefix whole.1 (List.prefix_append _ _), closed⟩

/-! ## Leaders -/

theorem OnLevel.append {earlier : List String} (stands : OnLevel connective earlier tokens)
    (balanced : Balanced more) : OnLevel connective earlier (tokens ++ more) := by
  obtain ⟨between, rfl, inner⟩ := stands
  exact ⟨between ++ more, by rw [List.append_assoc, List.cons_append], inner.append balanced⟩

theorem Leads.append (leads : Leads connective tokens) (balanced : Balanced more) :
    Leads connective (tokens ++ more) := by
  obtain ⟨earlier, stands, first⟩ := leads
  exact ⟨earlier, stands.append balanced, first⟩

theorem Leaderless.append (leaderless : Leaderless tokens) (balanced : Balanced more)
    (later : Leaderless more) : Leaderless (tokens ++ more) := by
  rintro connective earlier ⟨between, same, inner⟩
  rcases List.append_eq_append_iff.1 same with ⟨others, _, more_eq⟩ | ⟨others, rfl, rest_eq⟩
  · exact later connective others ⟨between, more_eq, inner⟩
  · cases others with
    | nil => exact later connective [] ⟨between, rest_eq.symm, inner⟩
    | cons token middle =>
        obtain ⟨rfl, rfl⟩ := List.cons.inj rest_eq
        exact leaderless connective earlier ⟨middle, rfl, inner.of_append balanced⟩

/-- Balanced tokens without a connective of their own level change no leader. -/
theorem LedBy.append {sofar : Option Connective} (led : LedBy sofar tokens)
    (balanced : Balanced more) (later : Leaderless more) : LedBy sofar (tokens ++ more) := by
  cases sofar with
  | none => exact Leaderless.append led balanced later
  | some first => exact Leads.append led balanced

theorem leaderless_of_not_mem
    (absent : ∀ connective : Connective, connective.keyword.text ∉ tokens) :
    Leaderless tokens := by
  rintro connective earlier ⟨between, rfl, _⟩
  exact absent connective (List.mem_append_right _ List.mem_cons_self)

/-- A bracket that is opened starts a level of its own. -/
theorem Leaderless.opening (tokens : List String) :
    Leaderless (tokens ++ [Keyword.openBracket.text]) := by
  rintro connective earlier ⟨between, same, balanced⟩
  rcases List.eq_nil_or_concat between with rfl | ⟨inner, last, rfl⟩
  · have last_eq := (List.append_inj' same rfl).2
    exact connective_ne_bracket connective .opening (List.cons.inj last_eq).1.symm
  · rw [List.concat_eq_append] at same balanced
    rw [← List.cons_append, ← List.append_assoc] at same
    obtain rfl := (List.cons.inj (List.append_inj' same rfl).2).1
    have covered := balanced.1.covered inner (List.prefix_append _ _)
    have closed := balanced.2
    rw [openAfter_append, openAfter_opening] at closed
    omega

/-- What brackets enclose is not on the level around them. -/
theorem Leaderless.enclosed (balanced : Balanced tokens) :
    Leaderless (Keyword.openBracket.text :: (tokens ++ [Keyword.closeBracket.text])) := by
  rintro connective earlier ⟨between, same, inner⟩
  cases earlier with
  | nil => exact connective_ne_bracket connective .opening (List.cons.inj same).1.symm
  | cons first before =>
      have rest_eq : tokens ++ [Keyword.closeBracket.text] =
          before ++ connective.keyword.text :: between := (List.cons.inj same).2
      have counted := congrArg openAfter rest_eq
      rw [openAfter_append, openAfter_closing, balanced.2, openAfter_append, openAfter_cons,
        openAfter_connective, inner.2] at counted
      have initial : before <+: tokens := by
        rcases List.prefix_concat_iff.1 ⟨_, rest_eq.symm⟩ with rfl | inside
        · have length_eq := congrArg List.length rest_eq
          simp only [List.length_append, List.length_cons, List.length_nil] at length_eq
          omega
        · exact inside
      have covered := balanced.1.covered before initial
      omega

/-- A connective that agrees with the leader, or has none, is led by itself. -/
theorem LedBy.join {sofar : Option Connective} (led : LedBy sofar tokens)
    (agrees : sofar.any (· != connective) = false) :
    LedBy (some connective) (tokens ++ [connective.keyword.text]) := by
  cases sofar with
  | none => exact ⟨tokens, ⟨[], rfl, .nil⟩, led⟩
  | some first =>
      obtain rfl : first = connective := by simpa using agrees
      exact Leads.append led (balanced_connective first)

/-- A level has one leader. -/
theorem Leads.unique {other : Connective} (leads : Leads connective tokens)
    (leads' : Leads other tokens) : connective = other := by
  obtain ⟨earlier, ⟨between, rfl, balanced⟩, first⟩ := leads
  obtain ⟨earlier', ⟨between', same, balanced'⟩, first'⟩ := leads'
  rcases split_cases same with ⟨_, equal⟩ | ⟨middle, rfl, rfl⟩ | ⟨middle, rfl, rfl⟩
  · exact connective_text_injective equal
  · have inner : Balanced (other.keyword.text :: between') :=
      Balanced.append (balanced_connective other) balanced'
    exact (first' connective earlier ⟨middle, rfl, balanced.of_append inner⟩).elim
  · have inner : Balanced (connective.keyword.text :: between) :=
      Balanced.append (balanced_connective connective) balanced
    exact (first other earlier' ⟨middle, rfl, balanced'.of_append inner⟩).elim

/-- A connective is mixed in exactly if it differs from the leader of its level. -/
theorem LedBy.mixes_iff {sofar : Option Connective} (led : LedBy sofar tokens) :
    Mixes tokens connective ↔ sofar.any (· != connective) = true := by
  cases sofar with
  | none =>
      constructor
      · rintro ⟨first, ⟨earlier, stands, _⟩, _⟩
        exact (led first earlier stands).elim
      · intro impossible
        cases impossible
  | some first =>
      rw [Option.any_some, bne_iff_ne]
      constructor
      · rintro ⟨other, leads, differs⟩
        rwa [Leads.unique led leads]
      · intro differs
        exact ⟨first, led, differs⟩

/-! ## The leftmost connective that is mixed in -/

theorem Agreeing.append (agrees : Agreeing front tokens)
    (later : Agreeing (front ++ tokens) more) : Agreeing front (tokens ++ more) := by
  intro before connective after same
  rcases List.append_eq_append_iff.1 same with ⟨others, rfl, more_eq⟩ | ⟨others, rfl, rest_eq⟩
  · rw [← List.append_assoc]
    exact later others connective after more_eq
  · cases others with
    | nil =>
        have mixes := later [] connective after rest_eq.symm
        rwa [List.append_nil, List.append_nil] at mixes
    | cons token middle =>
        obtain ⟨rfl, rfl⟩ := List.cons.inj rest_eq
        exact agrees before connective middle rfl

theorem agreeing_of_not_mem (absent : ∀ connective : Connective, connective.keyword.text ∉ tokens) :
    Agreeing front tokens := by
  rintro before connective after rfl
  exact (absent connective (List.mem_append_right _ List.mem_cons_self)).elim

theorem agreeing_bracket (front : List String) (bracket : Bracket) :
    Agreeing front [bracket.keyword.text] :=
  agreeing_of_not_mem fun connective member =>
    connective_ne_bracket connective bracket (List.mem_singleton.1 member)

theorem agreeing_connective (agrees : ¬Mixes front connective) :
    Agreeing front [connective.keyword.text] := by
  intro before other after same
  cases before with
  | nil =>
      rw [List.append_nil, ← connective_text_injective (List.cons.inj same).1]
      exact agrees
  | cons token rest => cases rest <;> cases (List.cons.inj same).2

theorem FirstMixed.append_right (mixed : FirstMixed front tokens before) (more : List String) :
    FirstMixed front (tokens ++ more) before := by
  obtain ⟨connective, after, rfl, mixes, agrees⟩ := mixed
  exact ⟨connective, after ++ more, by rw [List.append_assoc, List.cons_append], mixes, agrees⟩

theorem FirstMixed.append_left (agrees : Agreeing front tokens)
    (mixed : FirstMixed (front ++ tokens) more before) :
    FirstMixed front (tokens ++ more) (tokens ++ before) := by
  obtain ⟨connective, after, rfl, mixes, inner⟩ := mixed
  refine ⟨connective, after, (List.append_assoc _ _ _).symm, ?_, agrees.append inner⟩
  rwa [← List.append_assoc]

/-- At most one connective is the leftmost that is mixed in. -/
theorem FirstMixed.unique {before' : List String} (mixed : FirstMixed front tokens before)
    (mixed' : FirstMixed front tokens before') : before = before' := by
  obtain ⟨connective, after, rfl, mixes, agrees⟩ := mixed
  obtain ⟨other, after', same, mixes', agrees'⟩ := mixed'
  rcases split_cases same with ⟨equal, _⟩ | ⟨middle, rfl, _⟩ | ⟨middle, rfl, _⟩
  · exact equal
  · exact (agrees' before connective middle rfl mixes).elim
  · exact (agrees before' other middle rfl mixes').elim

theorem FirstMixed.not_agreeing (mixed : FirstMixed front tokens before) :
    ¬Agreeing front tokens := by
  obtain ⟨connective, after, rfl, mixes, _⟩ := mixed
  exact fun agrees => agrees before connective after rfl mixes

end Grammar

end FuzzyControl
