import Mathlib.Algebra.BigOperators.Ring.Finset
import FuzzyControl.Proofs.Invariant
import FuzzyControl.Proofs.Validation
import FuzzyControl.Scalar.Rational

/-!
# Which coefficients count

The value of an affine function adds up the coefficients that are stored.  On accepted values this
is the sum over the declared inputs, so that stored coefficients of other keys have no effect.
Such coefficients only come in when a function is added to an output that has been declared.
-/

namespace FuzzyControl

namespace KeyMap

variable {β : Type}

/-- A map is determined by its look-ups. -/
theorem ext_get? {first second : KeyMap β} (same : ∀ key, first.get? key = second.get? key) :
    first = second := by
  have permuted : first.entries.Perm second.entries := by
    refine (List.perm_ext_iff_of_nodup (.of_map _ first.keys_nodup)
      (.of_map _ second.keys_nodup)).2 ?_
    rintro ⟨key, value⟩
    rw [← get?_eq_some_iff, same, get?_eq_some_iff]
  refine eq_of_entries_eq (permuted.eq_of_pairwise (fun _ _ _ _ less greater => ?_)
    first.ascending second.ascending)
  exact absurd less (Nat.lt_asymm greater)

/-- Of the values given to one key the last one stays. -/
theorem get?_ofList (entries : List (Nat × β)) (key : Nat) :
    (ofList entries).get? key = entries.reverse.lookup key := by
  induction entries using List.reverseRecOn with
  | nil => rfl
  | append_singleton entries last ih =>
      have appended : ofList (entries ++ [last]) = (ofList entries).insert last.1 last.2 :=
        List.foldl_concat ..
      rw [appended, get?_insert, ih, List.reverse_append, List.reverse_singleton,
        List.singleton_append, lookup_cons_eq_ite]

/-- Entries with different keys may be given in any order. -/
theorem ofList_eq_of_perm {first second : List (Nat × β)} (permuted : first.Perm second)
    (distinct : (first.map (·.1)).Nodup) : ofList first = ofList second := by
  have distinct_first : (first.reverse.map (·.1)).Nodup := by
    rwa [List.map_reverse, List.nodup_reverse]
  have distinct_second : (second.reverse.map (·.1)).Nodup := by
    rw [List.map_reverse, List.nodup_reverse]
    exact (permuted.map _).nodup distinct
  refine ext_get? fun key => Option.ext fun value => ?_
  rw [get?_ofList, get?_ofList, lookup_eq_some_iff_mem distinct_first,
    lookup_eq_some_iff_mem distinct_second, List.mem_reverse, List.mem_reverse, permuted.mem_iff]

/-- A value that is given to a key has no effect if the key is given another one later. -/
theorem ofList_eq_of_overwritten {before after : List (Nat × β)} {key : Nat} {value : β}
    (overwritten : key ∈ after.map (·.1)) :
    ofList (before ++ (key, value) :: after) = ofList (before ++ after) := by
  refine ext_get? fun other => ?_
  rw [get?_ofList, get?_ofList, List.reverse_append, List.reverse_append, List.reverse_cons,
    List.append_assoc, List.singleton_append, List.lookup_append, List.lookup_append,
    lookup_cons_eq_ite]
  by_cases same : other = key
  · subst same
    obtain ⟨entry, member, own⟩ := List.mem_map.1 overwritten
    have found : (after.reverse.lookup other).isSome = true :=
      List.lookup_isSome_iff.2 ⟨entry, List.mem_reverse.2 member, beq_iff_eq.2 own.symm⟩
    obtain ⟨last, found⟩ := Option.isSome_iff_exists.1 found
    rw [found, Option.some_or, Option.some_or]
  · rw [if_neg same]

end KeyMap

/-! ## Declared functions -/

namespace AffineFunction

variable {α : Type} {name : String} {constant : α} {function : AffineFunction α}

/-- A declared function keeps the last coefficient that is given for each key. -/
theorem get?_declare {coefficients : List (Nat × α)}
    (declared : declare name coefficients constant = .ok function) (key : Nat) :
    function.coefficients.get? key = coefficients.reverse.lookup key := by
  obtain ⟨_, _, rest⟩ := Outcome.bind_eq_ok_iff.1 declared
  cases rest
  exact KeyMap.get?_ofList coefficients key

theorem declare_congr {first second : List (Nat × α)}
    (same : KeyMap.ofList first = KeyMap.ofList second) :
    declare name first constant = declare name second constant := by
  rw [declare, declare, same]

/-! ## Values in exact arithmetic -/

variable {K : Type} [Field K]

/-- If all keys with a weight are among the first ones, a weighted sum of entries is over those. -/
theorem sum_entries_eq_sum_range {count : Nat} {weight : Nat → K} {entries : List (Nat × K)}
    (distinct : (entries.map (·.1)).Nodup) (foreign : ∀ key, count ≤ key → weight key = 0) :
    (entries.map fun entry => entry.2 * weight entry.1).sum =
      ∑ key ∈ Finset.range count, (entries.lookup key).getD 0 * weight key := by
  induction entries with
  | nil => simp
  | cons first rest ih =>
      obtain ⟨fresh, distinct_rest⟩ := List.nodup_cons.1 distinct
      have absent : rest.lookup first.1 = none := by
        refine List.lookup_eq_none_iff.2 fun entry member => bne_iff_ne.2 fun same => ?_
        exact fresh (List.mem_map.2 ⟨entry, member, same.symm⟩)
      have own : (if first.1 ∈ Finset.range count then first.2 * weight first.1 else 0) =
          first.2 * weight first.1 := by
        split
        · rfl
        · rename_i outside
          rw [Finset.mem_range, Nat.not_lt] at outside
          rw [foreign first.1 outside, mul_zero]
      have split_first (key : Nat) : ((first :: rest).lookup key).getD 0 * weight key =
          (if key = first.1 then first.2 * weight first.1 else 0) +
            (rest.lookup key).getD 0 * weight key := by
        rw [KeyMap.lookup_cons_eq_ite]
        by_cases same : key = first.1
        · subst same
          rw [if_pos rfl, if_pos rfl, absent, Option.getD_some, Option.getD_none, zero_mul,
            add_zero]
        · rw [if_neg same, if_neg same, zero_add]
      rw [List.map_cons, List.sum_cons, ih distinct_rest,
        Finset.sum_congr rfl fun key _ => split_first key, Finset.sum_add_distrib,
        Finset.sum_ite_eq', own]

variable [LinearOrder K] (functions : Elementary K)

/-- The value adds the stored coefficients, each times the value of its key, to the constant. -/
theorem value_eq_add_sum (function : AffineFunction K) (values : KeyMap K) :
    letI := functions.scalar
    function.value values = function.constant +
      (function.coefficients.entries.map
        fun entry => entry.2 * (values.get? entry.1).getD 0).sum := by
  let _ := functions.scalar
  unfold value
  generalize function.constant = start
  induction function.coefficients.entries generalizing start with
  | nil => exact (add_zero start).symm
  | cons entry rest ih =>
      rw [List.foldl_cons, ih, List.map_cons, List.sum_cons]
      exact add_assoc ..

/-- If no key from the count on has a value, the coefficients of the first keys make the value. -/
theorem value_eq_sum_range {count : Nat} {values : KeyMap K}
    (foreign : ∀ key, count ≤ key → values.get? key = none) (function : AffineFunction K) :
    letI := functions.scalar
    function.value values = function.constant +
      ∑ key ∈ Finset.range count, function.coefficient key * (values.get? key).getD 0 := by
  let _ := functions.scalar
  rw [value_eq_add_sum functions]
  have unweighted (key : Nat) (less : count ≤ key) : (values.get? key).getD (0 : K) = 0 := by
    rw [foreign key less, Option.getD_none]
  rw [sum_entries_eq_sum_range function.coefficients.keys_nodup unweighted]
  rfl

end AffineFunction

/-! ## Runs -/

namespace RuleBase

variable {α : Type} [Scalar α] {self changed : RuleBase α (AffineVariable α)} {key : Nat}

/-- The coefficients of an output, if it is declared, are those of declared inputs. -/
def Grounded (base : RuleBase α (AffineVariable α)) (key : Nat) : Prop :=
  ∀ output, base.outputs[key]? = some output → ∀ function ∈ output.functions,
    ∀ input ∈ function.coefficients.keys, input < base.inputs.length

/-- The operation adds no function to the output, unless the output is not yet declared. -/
def Spares (base : RuleBase α (AffineVariable α)) (key : Nat) :
    Operation α (AffineVariable α) (AffineFunction α) → Prop
  | .adjustOutput target _ => target = key → base.outputs.length ≤ key
  | _ => True

theorem Grounded.mono (grounded : self.Grounded key) (outputs : changed.outputs = self.outputs)
    (inputs : self.inputs.length ≤ changed.inputs.length) : changed.Grounded key := by
  intro output declared function member input stored
  rw [outputs] at declared
  exact Nat.lt_of_lt_of_le (grounded output declared function member input stored) inputs

/-- Inputs never leave, and an output is added only if its coefficients are those of inputs. -/
theorem Grounded.step {operation : Operation α (AffineVariable α) (AffineFunction α)}
    (grounded : self.Grounded key) (spared : self.Spares key operation)
    (step : Step self operation changed) : changed.Grounded key := by
  cases step with
  | addInput unused =>
      refine grounded.mono rfl ?_
      rw [List.length_append]
      exact Nat.le_add_right _ _
  | addOutput unused referenced =>
      intro output declared function member input stored
      by_cases earlier : key < self.outputs.length
      · rw [List.getElem?_append_left earlier] at declared
        exact grounded output declared function member input stored
      · rw [List.getElem?_append_right (Nat.le_of_not_lt earlier)] at declared
        obtain rfl := List.mem_singleton.1 (List.mem_of_getElem? declared)
        have mentioned : input ∈ OutputVariable.referenced output :=
          List.mem_flatMap.2 ⟨function, member, stored⟩
        exact of_decide_eq_true (List.all_eq_true.1 referenced input mentioned)
  | adjustInput here adjusts => exact grounded.mono rfl (Nat.le_of_eq (List.length_set ..).symm)
  | @adjustOutput target _ _ _ here adjusts =>
      intro output declared
      have inside := (List.getElem?_eq_some_iff.1 here).1
      have other : target ≠ key := fun same =>
        absurd (spared same) (Nat.not_le.2 (same ▸ inside))
      rw [List.getElem?_set_ne other] at declared
      exact grounded output declared
  | _ => exact grounded.mono rfl (Nat.le_refl _)

theorem Grounded.perform {operation : Operation α (AffineVariable α) (AffineFunction α)}
    (grounded : self.Grounded key) (spared : self.Spares key operation) :
    (self.perform operation).Grounded key := by
  unfold RuleBase.perform
  split
  · rename_i done
    exact grounded.step spared (step_of_apply done)
  · exact grounded

def SparesAll (base : RuleBase α (AffineVariable α)) (key : Nat) :
    List (Operation α (AffineVariable α) (AffineFunction α)) → Prop
  | [] => True
  | operation :: rest => base.Spares key operation ∧ (base.perform operation).SparesAll key rest

theorem Grounded.performAll {operations : List (Operation α (AffineVariable α) (AffineFunction α))}
    (grounded : self.Grounded key) (spared : self.SparesAll key operations) :
    (self.performAll operations).Grounded key := by
  induction operations generalizing self with
  | nil => exact grounded
  | cons operation rest ih => exact ih (grounded.perform spared.1) spared.2

theorem grounded_empty (norms : Norms) (key : Nat) :
    (empty norms : RuleBase α (AffineVariable α)).Grounded key :=
  fun _ declared => nomatch declared

/--
On accepted values a function is affine in the declared inputs: its constant plus the sum over
them of coefficient times value, so that further coefficients add nothing.  Entries of different
keys may be given in any order, of the same key the last one counts, and both hold in every
arithmetic.  Unless functions are added to an output that has been declared, all its coefficients
are those of declared inputs.
-/
theorem affine_in_declared {K : Type} [Field K] [LinearOrder K] (functions : Elementary K)
    (α : Type) [Scalar α] :
    letI := functions.scalar
    (∀ (base : RuleBase K (AffineVariable K)) (values : KeyMap K), base.validate values = .ok () →
      ∃ crisp : Nat → K, (∀ key < base.inputs.length, values.get? key = some (crisp key)) ∧
        ∀ function : AffineFunction K,
          function.value values = function.constant +
            ∑ key ∈ Finset.range base.inputs.length, function.coefficient key * crisp key ∧
          ∀ foreign extra, base.inputs.length ≤ foreign →
            { function with coefficients := function.coefficients.insert foreign extra }.value
              values = function.value values) ∧
    (∀ (name : String) (constant : α) (first second : List (Nat × α)),
      first.Perm second → (first.map (·.1)).Nodup →
        AffineFunction.declare name first constant =
          AffineFunction.declare name second constant) ∧
    (∀ (name : String) (constant : α) (before after : List (Nat × α)) (key : Nat) (value : α),
      key ∈ after.map (·.1) →
        AffineFunction.declare name (before ++ (key, value) :: after) constant =
          AffineFunction.declare name (before ++ after) constant) ∧
    (∀ (name : String) (constant : α) (coefficients : List (Nat × α))
      (function : AffineFunction α),
      AffineFunction.declare name coefficients constant = .ok function →
        ∀ key, function.coefficients.get? key = coefficients.reverse.lookup key) ∧
    (∀ (norms : Norms) (operations : List (Operation α (AffineVariable α) (AffineFunction α)))
      (key : Nat), (empty norms).SparesAll key operations →
        ((empty norms).performAll operations).Grounded key) := by
  let _ := functions.scalar
  refine ⟨fun base values accepted => ?_, ?_, ?_, ?_, ?_⟩
  · have foreign_absent (key : Nat) (less : base.inputs.length ≤ key) : values.get? key = none :=
      get?_eq_none_of_accepted accepted less
    refine ⟨fun key => (values.get? key).getD 0, fun key less => ?_, fun function => ⟨?_, ?_⟩⟩
    · obtain ⟨value, found⟩ :=
        exists_value_of_accepted accepted (List.getElem?_eq_getElem less)
      exact found.trans (congrArg some (Option.getD_eq_iff.2 (.inl found)).symm)
    · exact AffineFunction.value_eq_sum_range functions foreign_absent function
    · intro foreign extra undeclared
      rw [AffineFunction.value_eq_sum_range functions foreign_absent,
        AffineFunction.value_eq_sum_range functions foreign_absent]
      refine congrArg _ (Finset.sum_congr rfl fun key member => ?_)
      have different : key ≠ foreign :=
        Nat.ne_of_lt (Nat.lt_of_lt_of_le (Finset.mem_range.1 member) undeclared)
      rw [AffineFunction.coefficient, KeyMap.get?_insert, if_neg different]
      rfl
  · intro name constant first second permuted distinct
    exact AffineFunction.declare_congr (KeyMap.ofList_eq_of_perm permuted distinct)
  · intro name constant before after key value overwritten
    exact AffineFunction.declare_congr (KeyMap.ofList_eq_of_overwritten overwritten)
  · intro name constant coefficients function declared key
    exact AffineFunction.get?_declare declared key
  · intro norms operations key spared
    exact (grounded_empty norms key).performAll spared

/-- A declared tip gets a function of an input that does not exist; a wine is left as declared. -/
def foreignOperations : List (Operation ℚ (AffineVariable ℚ) (AffineFunction ℚ)) :=
  [.addInput ⟨"food", 0, 1, zero_lt_one, []⟩,
    .addOutput ⟨"tip", [⟨"low", ∅, 2⟩]⟩,
    .adjustOutput 0 ⟨"high", .ofList [(3, 7), (0, 1), (0, 1 / 2)], 6⟩,
    .adjustOutput 1 ⟨"none", .ofList [(5, 1)], 0⟩,
    .addOutput ⟨"wine", [⟨"red", .ofList [(0, 2)], 30⟩]⟩]

theorem foreign_adds_nothing :
    (⟨"high", .ofList [(3, 7), (0, 1), (0, 1 / 2)], 6⟩ : AffineFunction ℚ).value
      (.ofList [(0, 1)]) = 13 / 2 ∧
    AffineFunction.declare "high" [(3, (7 : ℚ)), (0, 1)] 6 =
      AffineFunction.declare "high" [(0, 1), (3, 7)] 6 ∧
    ((empty default).performAll foreignOperations).Grounded 1 ∧
    ¬((empty default).performAll foreignOperations).Grounded 0 := by
  obtain ⟨affine, ordered, _, _, grounded⟩ := affine_in_declared Elementary.rational ℚ
  have accepted : ((empty default).performAll foreignOperations).validate (.ofList [(0, 1)]) =
      .ok () := Outcome.eq_ok_of_isOk (by decide +kernel)
  obtain ⟨crisp, crisp_eq, sums⟩ := affine _ _ accepted
  have one_input : ((empty default).performAll foreignOperations).inputs.length = 1 := by
    decide +kernel
  have one : crisp 0 = 1 := by
    have found := crisp_eq 0 (by decide +kernel)
    exact (Option.some.inj found).symm
  have spared : (empty default).SparesAll 1 foreignOperations :=
    ⟨trivial, trivial, fun same => absurd same (by decide), fun _ => by decide +kernel, trivial,
      trivial⟩
  refine ⟨?_, ordered _ _ _ _ (by decide) (by decide), grounded default foreignOperations 1 spared,
    fun absent => ?_⟩
  · rw [(sums _).1, one_input, Finset.sum_range_one, one]
    decide +kernel
  · have below := absent _ rfl ⟨"high", .ofList [(3, 7), (0, 1), (0, 1 / 2)], 6⟩
      (List.mem_cons_of_mem _ List.mem_cons_self) 3 (by decide +kernel)
    rw [one_input] at below
    exact absurd below (by decide)

end RuleBase

end FuzzyControl
