/-!
# Outcomes of steps that may fail

When a sequence of steps succeeds, with what, and with which errors it may fail.
-/

namespace FuzzyControl

namespace Outcome

variable {ε ε' α β : Type}

theorem map_eq_ok_iff {change : α → β} {outcome : Except ε α} {result : β} :
    outcome.map change = .ok result ↔ ∃ value, outcome = .ok value ∧ change value = result := by
  cases outcome <;> simp [Except.map]

theorem mapError_eq_ok_iff {change : ε → ε'} {outcome : Except ε α} {result : α} :
    outcome.mapError change = .ok result ↔ outcome = .ok result := by
  cases outcome with
  | error cause =>
      change Except.error (change cause) = .ok result ↔ Except.error cause = .ok result
      simp
  | ok value =>
      change Except.ok value = .ok result ↔ Except.ok value = .ok result
      simp

theorem bind_eq_ok_iff {outcome : Except ε α} {next : α → Except ε β} {result : β} :
    outcome >>= next = .ok result ↔ ∃ value, outcome = .ok value ∧ next value = .ok result := by
  cases outcome <;> simp [bind, Except.bind]

theorem check_bind_eq_ok_iff {check : Except ε Unit} {next : Except ε β} {result : β} :
    (check >>= fun _ => next) = .ok result ↔ check = .ok () ∧ next = .ok result := by
  cases check <;> simp [bind, Except.bind]

theorem ite_eq_ok_iff {check : Prop} [Decidable check] {cause : ε} {value result : α} :
    (if check then .ok value else .error cause : Except ε α) = .ok result ↔
      check ∧ value = result := by
  by_cases passes : check <;> simp [passes]

theorem ok_bind (value : α) (next : α → Except ε β) : Except.ok value >>= next = next value :=
  rfl

theorem error_bind (cause : ε) (next : α → Except ε β) :
    Except.error cause >>= next = .error cause :=
  rfl

theorem exists_of_isOk {outcome : Except ε α} (succeeds : outcome.isOk = true) :
    ∃ value, outcome = .ok value := by
  cases outcome with
  | ok value => exact ⟨value, rfl⟩
  | error cause => cases succeeds

theorem eq_ok_of_isOk {check : Except ε Unit} (passes : check.isOk = true) : check = .ok () :=
  (exists_of_isOk passes).choose_spec

/-! ## Errors -/

theorem mapError_eq_error_iff {change : ε → ε'} {outcome : Except ε α} {result : ε'} :
    outcome.mapError change = .error result ↔
      ∃ cause, outcome = .error cause ∧ change cause = result := by
  cases outcome with
  | error cause =>
      change Except.error (change cause) = .error result ↔ _
      simp
  | ok value =>
      change Except.ok value = .error result ↔ _
      simp

theorem bind_ok_eq_error_iff {outcome : Except ε α} {change : α → β} {cause : ε} :
    (outcome >>= fun value => .ok (change value)) = .error cause ↔ outcome = .error cause := by
  cases outcome <;> simp [bind, Except.bind]

/-- If the outcome is an error, then an allowed one. -/
def Blames (allowed : ε → Prop) : Except ε α → Prop
  | .ok _ => True
  | .error cause => allowed cause

variable {allowed : ε → Prop} {outcome : Except ε α}

theorem Blames.of_error {cause : ε} (blames : Blames allowed outcome)
    (fails : outcome = .error cause) : allowed cause := by
  rw [fails] at blames
  exact blames

theorem Blames.mono (blames : Blames allowed outcome) {larger : ε → Prop}
    (included : ∀ cause, allowed cause → larger cause) : Blames larger outcome := by
  cases outcome with
  | ok value => trivial
  | error cause => exact included cause blames

theorem Blames.map (blames : Blames allowed outcome) (change : α → β) :
    Blames allowed (outcome.map change) := by
  cases outcome with
  | ok value => trivial
  | error cause => exact blames

theorem Blames.bind (blames : Blames allowed outcome) {next : α → Except ε β}
    (later : ∀ value, outcome = .ok value → Blames allowed (next value)) :
    Blames allowed (outcome >>= next) := by
  cases outcome with
  | ok value => exact later value rfl
  | error cause => exact blames

end Outcome

end FuzzyControl
