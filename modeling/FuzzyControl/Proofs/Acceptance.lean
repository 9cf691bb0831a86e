import FuzzyControl.Proofs.Mention
import FuzzyControl.Scalar.Double

/-!
# Which values are accepted

Values are accepted if exactly the declared inputs have one and each lies in its domain.
Otherwise there are too many or too few, or else the first input in key order is at fault that
has no value or one outside of its domain.
-/

namespace FuzzyControl

open Scalar

/-! ## Undefined values -/

/-- The value lies on neither side of any bound. -/
def Scalar.IsUnordered {α : Type} [Scalar α] (value : α) : Prop :=
  ∀ bound : α, ¬bound ≤ value ∧ ¬value ≤ bound

namespace Double

open Float.Model

theorem compare_self {unpacked : UnpackedFloat} (defined : unpacked ≠ .notANumber) :
    unpacked.compare unpacked = some .eq := by
  cases unpacked with
  | notANumber => exact absurd rfl defined
  | infinity sign => cases sign <;> rfl
  | zero sign => rfl
  | finite sign significand exponent positive =>
      have same_exponent : compare exponent exponent = .eq := Std.ReflCmp.compare_self
      have same_significand : compare significand significand = .eq := Std.ReflCmp.compare_self
      have same : (compare exponent exponent).then (compare significand significand) = .eq := by
        rw [same_exponent, same_significand]
        rfl
      cases sign with
      | positive => exact congrArg some same
      | negative => exact congrArg (fun order => some order.swap) same

theorem compare_undefined (unpacked : UnpackedFloat) : unpacked.compare .notANumber = none := by
  cases unpacked <;> rfl

/-- Among doubles the undefined results are unordered. -/
theorem isUnordered_of_undefined {value : Float} (undefined : isNumber value = false) :
    IsUnordered value := by
  have nowhere : value.toModel.unpack = .notANumber := by
    by_contra defined
    have same : isNumber value = true := by
      change (value.toModel.unpack.compare value.toModel.unpack == some .eq) = true
      rw [compare_self defined]
      rfl
    rw [same] at undefined
    cases undefined
  intro bound
  constructor
  · intro below
    have ordered : (bound.toModel.unpack.compare value.toModel.unpack).any (·.isLE) = true :=
      of_decide_eq_true below
    rw [nowhere, compare_undefined] at ordered
    cases ordered
  · intro above
    have ordered : (value.toModel.unpack.compare bound.toModel.unpack).any (·.isLE) = true :=
      of_decide_eq_true above
    rw [nowhere] at ordered
    cases ordered

end Double

namespace RuleBase

variable {α ω : Type} [Scalar α] {self : RuleBase α ω} {values : KeyMap α}

/-! ## Values in the order of keys -/

def Fits (values : KeyMap α) (key : Nat) (input : LinguisticVariable α) : Prop :=
  ∃ value, values.get? key = some value ∧ input.low ≤ value ∧ value ≤ input.high

inductive ValueFault (values : KeyMap α) (key : Nat) (input : LinguisticVariable α) :
    Error α → Prop where
  | missing (absent : values.get? key = none) :
      ValueFault values key input (.missingInput input.name)
  | outside {value : α} (found : values.get? key = some value)
      (outside : ¬(input.low ≤ value ∧ value ≤ input.high)) :
      ValueFault values key input (.outOfRange input.name value input.low input.high)

variable {key : Nat} {input : LinguisticVariable α} {inputs rest : List (LinguisticVariable α)}
  {cause : Error α}

theorem contains_iff {value : α} :
    input.contains value = true ↔ input.low ≤ value ∧ value ≤ input.high := by
  rw [LinguisticVariable.contains, Bool.and_eq_true, decide_eq_true_eq, decide_eq_true_eq]

theorem fits_or_fault (values : KeyMap α) (key : Nat) (input : LinguisticVariable α) :
    Fits values key input ∨ ∃ cause, ValueFault values key input cause := by
  cases found : values.get? key with
  | none => exact .inr ⟨_, .missing found⟩
  | some value =>
      by_cases inside : input.low ≤ value ∧ value ≤ input.high
      · exact .inl ⟨value, found, inside⟩
      · exact .inr ⟨_, .outside found inside⟩

theorem ValueFault.unique {other : Error α} (fault : ValueFault values key input cause)
    (same : ValueFault values key input other) : cause = other := by
  cases fault with
  | missing absent =>
      cases same with
      | missing _ => rfl
      | outside found _ => cases absent.symm.trans found
  | outside found _ =>
      cases same with
      | missing absent => cases absent.symm.trans found
      | outside again _ =>
          cases found.symm.trans again
          rfl

theorem ValueFault.not_fits (fault : ValueFault values key input cause) :
    ¬Fits values key input := by
  rintro ⟨value, found, inside⟩
  cases fault with
  | missing absent =>
      rw [absent] at found
      cases found
  | outside elsewhere outside =>
      cases elsewhere.symm.trans found
      exact outside inside

theorem checkValues_of_fits (fits : Fits values key input) :
    checkValues values key (input :: rest) = checkValues values (key + 1) rest := by
  obtain ⟨value, found, inside⟩ := fits
  simp only [checkValues, found, contains_iff.2 inside, if_true]

theorem checkValues_of_fault (fault : ValueFault values key input cause) :
    checkValues values key (input :: rest) = .error cause := by
  cases fault with
  | missing absent => simp only [checkValues, absent]
  | outside found outside =>
      simp only [checkValues, found, if_neg (mt contains_iff.1 outside)]

/-- The values pass if all inputs fit; the first input has the given key. -/
theorem checkValues_eq_ok_iff :
    checkValues values key inputs = .ok () ↔
      ∀ offset input, inputs[offset]? = some input → Fits values (key + offset) input := by
  induction inputs generalizing key with
  | nil => simp [checkValues]
  | cons first rest ih =>
      rcases fits_or_fault values key first with fits | ⟨cause, fault⟩
      · rw [checkValues_of_fits fits, ih]
        constructor
        · intro later offset input here
          cases offset with
          | zero =>
              cases here
              exact fits
          | succ offset => exact Nat.add_right_comm key 1 offset ▸ later offset input here
        · intro all offset input here
          exact Nat.add_right_comm key offset 1 ▸ all (offset + 1) input here
      · rw [checkValues_of_fault fault]
        constructor
        · intro accepted
          cases accepted
        · intro all
          exact absurd (all 0 first rfl) fault.not_fits

/-- The values are refused for the first input that does not fit. -/
theorem checkValues_eq_error_iff :
    checkValues values key inputs = .error cause ↔
      ∃ offset input, inputs[offset]? = some input ∧
        ValueFault values (key + offset) input cause ∧
        ∀ earlier other, earlier < offset → inputs[earlier]? = some other →
          Fits values (key + earlier) other := by
  induction inputs generalizing key with
  | nil => simp [checkValues]
  | cons first rest ih =>
      rcases fits_or_fault values key first with fits | ⟨own, fault⟩
      · rw [checkValues_of_fits fits, ih]
        constructor
        · rintro ⟨offset, input, here, found, before⟩
          refine ⟨offset + 1, input, here, Nat.add_right_comm key 1 offset ▸ found, ?_⟩
          intro earlier other less there
          cases earlier with
          | zero =>
              cases there
              exact fits
          | succ earlier =>
              have fits_there := before earlier other (Nat.lt_of_succ_lt_succ less) there
              exact Nat.add_right_comm key 1 earlier ▸ fits_there
        · rintro ⟨offset, input, here, found, before⟩
          cases offset with
          | zero =>
              cases here
              exact absurd fits found.not_fits
          | succ offset =>
              refine ⟨offset, input, here, Nat.add_right_comm key offset 1 ▸ found, ?_⟩
              intro earlier other less there
              have fits_there := before (earlier + 1) other (Nat.succ_lt_succ less) there
              exact Nat.add_right_comm key earlier 1 ▸ fits_there
      · rw [checkValues_of_fault fault, Except.error.injEq]
        constructor
        · rintro rfl
          exact ⟨0, first, rfl, fault, fun earlier _ less => absurd less (Nat.not_lt_zero earlier)⟩
        · rintro ⟨offset, input, here, found, before⟩
          cases offset with
          | zero =>
              cases here
              exact fault.unique found
          | succ offset => exact absurd (before 0 first (Nat.succ_pos _) rfl) fault.not_fits

/-! ## Whole assignments -/

/-- Exactly the declared inputs have values, and every value lies in its domain. -/
structure Complete (base : RuleBase α ω) (values : KeyMap α) : Prop where
  keys : ∀ key, key ∈ values.keys ↔ key < base.inputs.length
  inside : ∀ {key input value}, base.inputs[key]? = some input → values.get? key = some value →
    input.low ≤ value ∧ value ≤ input.high

/-- Why values are refused: for their number, or else for the first input that does not fit. -/
inductive Rejects (self : RuleBase α ω) (values : KeyMap α) : Error α → Prop where
  | counted (differs : values.size ≠ self.inputs.length) :
      Rejects self values (.inputCount self.inputs.length values.size)
  | unfit {key : Nat} {input : LinguisticVariable α} {cause : Error α}
      (counted : values.size = self.inputs.length) (declared : self.inputs[key]? = some input)
      (fault : ValueFault values key input cause)
      (first : ∀ earlier other, earlier < key → self.inputs[earlier]? = some other →
        Fits values earlier other) : Rejects self values cause

theorem validate_eq_ok_iff_fits :
    self.validate values = .ok () ↔
      values.size = self.inputs.length ∧
        ∀ key input, self.inputs[key]? = some input → Fits values key input := by
  unfold validate
  split
  · rename_i counted
    rw [checkValues_eq_ok_iff]
    simp only [counted, true_and, Nat.zero_add]
  · rename_i differs
    simp [differs]

theorem validate_eq_error_iff :
    self.validate values = .error cause ↔ self.Rejects values cause := by
  unfold validate
  split
  · rename_i counted
    rw [checkValues_eq_error_iff]
    simp only [Nat.zero_add]
    constructor
    · rintro ⟨key, input, declared, fault, first⟩
      exact .unfit counted declared fault first
    · intro rejects
      cases rejects with
      | counted differs => exact absurd counted differs
      | unfit _ declared fault first => exact ⟨_, _, declared, fault, first⟩
  · rename_i differs
    rw [Except.error.injEq]
    constructor
    · rintro rfl
      exact .counted differs
    · intro rejects
      cases rejects with
      | counted _ => rfl
      | unfit counted _ _ _ => exact absurd counted differs

/-- As many values as inputs, each of which fits, leave no key over for another variable. -/
theorem validate_eq_ok_iff_complete :
    self.validate values = .ok () ↔ self.Complete values := by
  constructor
  · intro accepted
    have fits := (validate_eq_ok_iff_fits.1 accepted).2
    refine ⟨fun key => ?_, fun {key input value} declared found => ?_⟩
    · rw [keys_of_accepted accepted, List.mem_range]
    · obtain ⟨own, found_own, inside⟩ := fits key input declared
      cases found_own.symm.trans found
      exact inside
  · intro complete
    have positions : values.keys.Perm (List.range self.inputs.length) :=
      (List.perm_ext_iff_of_nodup values.keys_nodup List.nodup_range).2 fun key => by
        rw [complete.keys, List.mem_range]
    have counted : values.size = self.inputs.length := by
      rw [← values.length_keys, positions.length_eq, List.length_range]
    refine validate_eq_ok_iff_fits.2 ⟨counted, fun key input declared => ?_⟩
    have less := (List.getElem?_eq_some_iff.1 declared).1
    obtain ⟨value, found⟩ := KeyMap.mem_keys_iff.1 ((complete.keys key).2 less)
    exact ⟨value, found, complete.inside declared found⟩

/-- The row of an input holds the degrees of its terms at its value. -/
theorem getElem?_memberships (self : RuleBase α ω) (values : KeyMap α) (key : Nat) :
    (self.memberships values)[key]? =
      self.inputs[key]?.map fun input => input.fuzzify ((values.get? key).getD 0) := by
  rw [memberships, List.getElem?_map, List.getElem?_zipIdx, Option.map_map, Nat.zero_add]
  rfl

/--
Values are accepted exactly if each declared input has one in its domain and no other key has any.
So a value under a foreign key is never accepted, and neither is one that no bound can be compared
with.  All other values are refused, for their number if it differs and else for the first
declared input that has none or one outside of its domain.  Accepted values are fuzzified to one
degree for every term of every declared input, in their orders.
-/
theorem validate_decides (self : RuleBase α ω) (values : KeyMap α) :
    (self.validate values = .ok () ↔ self.Complete values) ∧
    (∀ cause, self.validate values = .error cause ↔ self.Rejects values cause) ∧
    (∀ key value, values.get? key = some value →
      self.inputs.length ≤ key ∨ IsUnordered value → self.validate values ≠ .ok ()) ∧
    (self.validate values = .ok () →
      ∃ memberships, self.fuzzify values = .ok memberships ∧
        memberships.length = self.inputs.length ∧
        ∀ key input value, self.inputs[key]? = some input → values.get? key = some value →
          memberships[key]? = some (input.terms.map fun term => term.set.degree value)) := by
  refine ⟨validate_eq_ok_iff_complete, fun cause => validate_eq_error_iff, ?_, ?_⟩
  · intro key value found excluded accepted
    have complete := validate_eq_ok_iff_complete.1 accepted
    have less := (complete.keys key).1 (KeyMap.mem_keys_iff.2 ⟨value, found⟩)
    rcases excluded with foreign | unordered
    · exact absurd less (Nat.not_lt.2 foreign)
    · have inside := complete.inside (List.getElem?_eq_getElem less) found
      exact (unordered _).1 inside.1
  · intro accepted
    refine ⟨self.memberships values, ?_, ?_, fun key input value declared found => ?_⟩
    · rw [fuzzify, accepted]
      rfl
    · rw [memberships, List.length_map, List.length_zipIdx]
    · rw [getElem?_memberships, declared, found]
      rfl

/-- A value under a foreign key leaves the service without one; an undefined one fits nowhere. -/
theorem tasting_decides :
    (∃ memberships,
      (tasting (.triangular 1 5 9) tastedTips).fuzzify (.ofList [(0, 3), (1, 4)]) =
        .ok memberships ∧
      memberships.length = 2 ∧ memberships[0]? = some [1 / 2, 1 / 4]) ∧
    (tasting (.triangular 1 5 9) tastedTips).validate (.ofList [(0, 3), (2, 4)]) =
      .error (.missingInput "service") ∧
    (tasting (.triangular 1 5 9) tastedTips).validate (.ofList [(0, 3), (2, 4)]) ≠ .ok () ∧
    (tasting (.triangular 1 5 9) tastedTips).validate (.ofList [(0, 3), (1, 0 / 0)]) ≠ .ok () := by
  have decided := validate_decides (tasting (.triangular 1 5 9) tastedTips)
  have accepted : (tasting (.triangular 1 5 9) tastedTips).validate (.ofList [(0, 3), (1, 4)]) =
      .ok () := tasting_accepts (by decide) (by decide)
  obtain ⟨memberships, fuzzified, length_eq, rows⟩ := (decided _).2.2.2 accepted
  have food := rows 0 _ 3 rfl rfl
  have degrees : ([⟨"good", .triangular 1 5 9⟩, ⟨"cold", .constant 0.25⟩] : List (Term Float)).map
      (fun term => term.set.degree 3) = [1 / 2, 1 / 4] := by decide +kernel
  have missing : (tasting (.triangular 1 5 9) tastedTips).Rejects (.ofList [(0, 3), (2, 4)])
      (.missingInput "service") := by
    have service : (tasting (.triangular 1 5 9) tastedTips).inputs[1]? =
      some (tasting (.triangular 1 5 9) tastedTips).inputs[1] := rfl
    refine .unfit rfl service (.missing rfl) fun earlier other less declared => ?_
    obtain rfl := Nat.lt_one_iff.1 less
    cases declared
    exact ⟨3, rfl, by decide, by decide⟩
  exact ⟨⟨memberships, fuzzified, length_eq, food.trans (congrArg some degrees)⟩,
    ((decided _).2.1 _).2 missing, (decided _).2.2.1 2 4 rfl (.inl (Nat.le_refl 2)),
    (decided _).2.2.1 1 (0 / 0) rfl (.inr (Double.isUnordered_of_undefined (by decide)))⟩

end RuleBase

end FuzzyControl
