/-!
# Maps from keys

Input values, crisp results and sets per output are kept by the key of a
variable.  A map is an association list in strictly ascending order of keys, so
each key has at most one value and the entries come out in key order.
-/

namespace FuzzyControl

structure KeyMap (β : Type) where
  entries : List (Nat × β)
  ascending : entries.Pairwise (fun first second => first.1 < second.1)

namespace KeyMap

variable {β γ : Type}

def insertEntry (key : Nat) (value : β) : List (Nat × β) → List (Nat × β)
  | [] => [(key, value)]
  | entry :: rest =>
      if key < entry.1 then (key, value) :: entry :: rest
      else if key = entry.1 then (key, value) :: rest
      else entry :: insertEntry key value rest

theorem mem_insertEntry {key : Nat} {value : β} {entry : Nat × β} {entries : List (Nat × β)}
    (member : entry ∈ insertEntry key value entries) : entry = (key, value) ∨ entry ∈ entries := by
  induction entries with
  | nil => simpa [insertEntry] using member
  | cons head rest ih =>
      simp only [insertEntry] at member
      split at member
      · simpa using member
      · split at member
        · rcases List.mem_cons.1 member with same | below
          · exact .inl same
          · exact .inr (List.mem_cons_of_mem _ below)
        · rcases List.mem_cons.1 member with same | below
          · exact .inr (same ▸ List.mem_cons_self)
          · exact (ih below).imp_right (List.mem_cons_of_mem _)

theorem insertEntry_ascending (key : Nat) (value : β) {entries : List (Nat × β)}
    (ascending : entries.Pairwise (fun first second => first.1 < second.1)) :
    (insertEntry key value entries).Pairwise (fun first second => first.1 < second.1) := by
  induction entries with
  | nil => simp [insertEntry]
  | cons head rest ih =>
      obtain ⟨above, inner⟩ := List.pairwise_cons.1 ascending
      simp only [insertEntry]
      split
      · rename_i less
        refine .cons (fun entry member => ?_) ascending
        rcases List.mem_cons.1 member with rfl | below
        · exact less
        · exact Nat.lt_trans less (above entry below)
      · split
        · rename_i same
          exact .cons (fun entry member => same ▸ above entry member) inner
        · rename_i notLess notSame
          refine .cons (fun entry member => ?_) (ih inner)
          rcases mem_insertEntry member with rfl | below
          · exact Nat.lt_of_le_of_ne (Nat.le_of_not_lt notLess) (Ne.symm notSame)
          · exact above entry below

def empty : KeyMap β :=
  ⟨[], .nil⟩

instance : EmptyCollection (KeyMap β) := ⟨empty⟩
instance : Inhabited (KeyMap β) := ⟨empty⟩

def insert (key : Nat) (value : β) (map : KeyMap β) : KeyMap β :=
  ⟨insertEntry key value map.entries, insertEntry_ascending key value map.ascending⟩

/-- Collects entries; the last value of a repeated key stays. -/
def ofList (entries : List (Nat × β)) : KeyMap β :=
  entries.foldl (fun map entry => map.insert entry.1 entry.2) empty

def get? (map : KeyMap β) (key : Nat) : Option β :=
  map.entries.lookup key

def size (map : KeyMap β) : Nat :=
  map.entries.length

def keys (map : KeyMap β) : List Nat :=
  map.entries.map (·.1)

def map (change : β → γ) (map : KeyMap β) : KeyMap γ where
  entries := map.entries.map fun entry => (entry.1, change entry.2)
  ascending := List.pairwise_map.2 map.ascending

def filterMap (change : Nat → β → Option γ) (map : KeyMap β) : KeyMap γ where
  entries := map.entries.filterMap fun entry => (change entry.1 entry.2).map (entry.1, ·)
  ascending := by
    refine List.pairwise_filterMap.2 (map.ascending.imp fun {first second} less => ?_)
    intro left leftIs right rightIs
    obtain ⟨_, _, rfl⟩ := Option.map_eq_some_iff.1 leftIs
    obtain ⟨_, _, rfl⟩ := Option.map_eq_some_iff.1 rightIs
    exact less

/-- The values of a list, keyed by their positions. -/
def ofPositions (values : List β) : KeyMap β where
  entries := values.zipIdx.map fun entry => (entry.2, entry.1)
  ascending := by
    refine List.pairwise_map.2 (List.pairwise_iff_getElem.2 fun i j hi hj less => ?_)
    simpa using less

theorem lookup_cons_eq_ite (entry : Nat × β) (rest : List (Nat × β)) (key : Nat) :
    (entry :: rest).lookup key = if key = entry.1 then some entry.2 else rest.lookup key := by
  obtain ⟨own, value⟩ := entry
  by_cases same : key = own
  · simp [same]
  · simp [List.lookup_cons, beq_false_of_ne same, same]

theorem lookup_insertEntry (key : Nat) (value : β) (entries : List (Nat × β)) (other : Nat) :
    (insertEntry key value entries).lookup other =
      if other = key then some value else entries.lookup other := by
  induction entries with
  | nil => simp [insertEntry, lookup_cons_eq_ite]
  | cons head rest ih =>
      simp only [insertEntry]
      split
      · simp [lookup_cons_eq_ite]
      · split
        · rename_i same
          by_cases here : other = key <;> simp [lookup_cons_eq_ite, here, ← same]
        · rename_i different
          simp only [lookup_cons_eq_ite, ih]
          by_cases here : other = head.1
          · simp [here, Ne.symm different]
          · simp [here]

/-- A key has the value that was set last. -/
theorem get?_insert (key : Nat) (value : β) (map : KeyMap β) (other : Nat) :
    (map.insert key value).get? other = if other = key then some value else map.get? other :=
  lookup_insertEntry key value map.entries other

theorem lookup_zipIdx (values : List β) (start key : Nat) :
    ((values.zipIdx start).map fun entry => (entry.2, entry.1)).lookup key =
      if start ≤ key then values[key - start]? else none := by
  induction values generalizing start with
  | nil => simp
  | cons first rest ih =>
      simp only [List.zipIdx_cons, List.map_cons, lookup_cons_eq_ite, ih]
      by_cases here : key = start
      · simp [here]
      · rw [if_neg here]
        by_cases less : start ≤ key
        · have split : key - start = (key - (start + 1)) + 1 := by omega
          rw [if_pos (by omega : start + 1 ≤ key), if_pos less, split, List.getElem?_cons_succ]
        · rw [if_neg (by omega : ¬start + 1 ≤ key), if_neg less]

/-- A list keyed by positions has its own entries. -/
theorem get?_ofPositions (values : List β) (key : Nat) :
    (ofPositions values).get? key = values[key]? := by
  simpa [get?, ofPositions] using lookup_zipIdx values 0 key

end KeyMap

end FuzzyControl
