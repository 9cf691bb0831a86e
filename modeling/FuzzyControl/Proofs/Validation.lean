import Mathlib.Data.List.Perm.Subperm
import FuzzyControl.Proofs.Inference

/-!
# Accepted values

Values are accepted only if each declared input has one in its domain and no other key has
any.  No check asks for foreign keys: they are ruled out by counting.
-/

namespace FuzzyControl

namespace KeyMap

variable {β : Type} {map : KeyMap β} {key : Nat}

/-- A key that occurs once is looked up where it stands. -/
theorem lookup_eq_some_iff_mem {entries : List (Nat × β)} (distinct : (entries.map (·.1)).Nodup)
    {value : β} : entries.lookup key = some value ↔ (key, value) ∈ entries := by
  rw [List.lookup_eq_some_iff]
  constructor
  · rintro ⟨before, after, rfl, _⟩
    exact List.mem_append_right before List.mem_cons_self
  · intro member
    obtain ⟨before, after, rfl⟩ := List.append_of_mem member
    rw [List.map_append, List.nodup_append] at distinct
    refine ⟨before, after, rfl, fun entry earlier => bne_iff_ne.2 (Ne.symm ?_)⟩
    exact distinct.2.2 entry.1 (List.mem_map_of_mem earlier) key List.mem_cons_self

theorem keys_ascending (map : KeyMap β) : map.keys.Pairwise (· < ·) :=
  List.pairwise_map.2 map.ascending

theorem keys_nodup (map : KeyMap β) : map.keys.Nodup :=
  map.keys_ascending.imp Nat.ne_of_lt

theorem get?_eq_some_iff {value : β} : map.get? key = some value ↔ (key, value) ∈ map.entries :=
  lookup_eq_some_iff_mem map.keys_nodup

theorem mem_keys_iff : key ∈ map.keys ↔ ∃ value, map.get? key = some value := by
  simp only [keys, List.mem_map, get?_eq_some_iff, Prod.exists, exists_and_right, exists_eq_right]

theorem get?_eq_none_of_not_mem (absent : key ∉ map.keys) : map.get? key = none :=
  Option.eq_none_iff_forall_ne_some.2 fun value found => absent (mem_keys_iff.2 ⟨value, found⟩)

theorem length_keys (map : KeyMap β) : map.keys.length = map.size :=
  List.length_map _

/-- As many keys as there are positions, with every position among them, are the positions. -/
theorem keys_eq_range {count : Nat} (sized : map.size = count)
    (present : ∀ key < count, ∃ value, map.get? key = some value) :
    map.keys = List.range count := by
  have inside : List.range count ⊆ map.keys := fun key member => by
    exact mem_keys_iff.2 (present key (List.mem_range.1 member))
  have length_eq : map.keys.length = (List.range count).length := by
    rw [length_keys, sized, List.length_range]
  have permuted : (List.range count).Perm map.keys :=
    (List.nodup_range.subperm inside).perm_of_length_le (Nat.le_of_eq length_eq)
  refine (permuted.eq_of_pairwise (fun first second _ _ less greater => ?_)
    List.pairwise_lt_range map.keys_ascending).symm
  exact absurd less (Nat.lt_asymm greater)

end KeyMap

namespace RuleBase

variable {α ω : Type} [Scalar α] {self : RuleBase α ω} {values : KeyMap α}

theorem size_of_accepted (accepted : self.validate values = .ok ()) :
    values.size = self.inputs.length := by
  unfold validate at accepted
  split at accepted
  · assumption
  · cases accepted

theorem exists_value_of_accepted (accepted : self.validate values = .ok ()) {key : Nat}
    {input : LinguisticVariable α} (declared : self.inputs[key]? = some input) :
    ∃ value, values.get? key = some value := by
  have checked : checkValues values 0 self.inputs = .ok () := by
    rwa [validate, if_pos (size_of_accepted accepted)] at accepted
  exact mem_zip_values checked (input, key) (List.mem_zipIdx_iff_getElem?.2 declared)

/-- Accepted values have exactly the keys of the declared inputs. -/
theorem keys_of_accepted (accepted : self.validate values = .ok ()) :
    values.keys = List.range self.inputs.length :=
  KeyMap.keys_eq_range (size_of_accepted accepted) fun _ less =>
    exists_value_of_accepted accepted (List.getElem?_eq_getElem less)

theorem get?_eq_none_of_accepted (accepted : self.validate values = .ok ()) {key : Nat}
    (undeclared : self.inputs.length ≤ key) : values.get? key = none := by
  refine KeyMap.get?_eq_none_of_not_mem ?_
  rw [keys_of_accepted accepted, List.mem_range]
  exact Nat.not_lt.2 undeclared

end RuleBase

end FuzzyControl
