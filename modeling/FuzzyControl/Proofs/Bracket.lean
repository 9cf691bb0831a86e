import FuzzyControl.Language.Bracket

/-!
# Partners of brackets

The scan for brackets succeeds exactly on the sequences that `Admitted` describes, and
the table it makes gives every opening bracket the first closing bracket at which as
many brackets have been closed as opened in between.
-/

namespace FuzzyControl

namespace Bracket

/--
The distance to the bracket that closes the innermost bracket around the sequence,
where `depth` brackets inside of it are still open.
-/
def closing? : Nat → List (Option Bracket) → Option Nat
  | _, [] => none
  | depth, none :: rest => (closing? depth rest).map (· + 1)
  | depth, some .opening :: rest => (closing? (depth + 1) rest).map (· + 1)
  | 0, some .closing :: _ => some 0
  | depth + 1, some .closing :: rest => (closing? depth rest).map (· + 1)

def partner? (shape : List (Option Bracket)) (index : Nat) : Option Nat :=
  match shape[index]? with
  | some (some .opening) => (closing? 0 (shape.drop (index + 1))).map (· + (index + 1))
  | _ => none

/-- With `depth` brackets open before it, the sequence closes them all and respects the limit. -/
def Admitted (limit : Option Nat) : Nat → List (Option Bracket) → Prop
  | depth, [] => depth = 0
  | depth, none :: rest => Admitted limit depth rest
  | depth, some .opening :: rest =>
      exceeded? limit (depth + 1) = none ∧ Admitted limit (depth + 1) rest
  | 0, some .closing :: _ => False
  | depth + 1, some .closing :: rest => Admitted limit depth rest

theorem closing?_is_closing {depth : Nat} {shape : List (Option Bracket)} {distance : Nat}
    (found : closing? depth shape = some distance) : shape[distance]? = some (some .closing) := by
  induction shape generalizing depth distance with
  | nil => cases found
  | cons entry rest ih =>
      match entry, depth with
      | none, _ | some .opening, _ | some .closing, _ + 1 =>
          obtain ⟨inner, foundInner, rfl⟩ := Option.map_eq_some_iff.1 found
          exact ih foundInner
      | some .closing, 0 =>
          cases found
          rfl

theorem partner?_append (before : List (Option Bracket)) (entry : Option Bracket)
    (after : List (Option Bracket)) :
    partner? (before ++ entry :: after) before.length =
      if entry = some .opening then (closing? 0 after).map (· + (before.length + 1)) else none := by
  have here : (before ++ entry :: after)[before.length]? = some entry := by
    rw [List.getElem?_append_right (Nat.le_refl _), Nat.sub_self, List.getElem?_cons_zero]
  have later : (before ++ entry :: after).drop (before.length + 1) = after := by
    rw [← List.drop_drop, List.drop_left, List.drop_succ_cons, List.drop_zero]
  rw [partner?, here, later]
  match entry with
  | none | some .opening | some .closing => rfl

theorem partner?_cons (entry : Option Bracket) (shape : List (Option Bracket)) (index : Nat) :
    partner? (entry :: shape) (index + 1) = (partner? shape index).map (· + 1) := by
  unfold partner?
  rw [List.getElem?_cons_succ, List.drop_succ_cons]
  split
  · rw [Option.map_map]
    rfl
  · rfl

/-- A partner is a later closing bracket, and only opening brackets have one. -/
theorem partner?_spec {shape : List (Option Bracket)} {index close : Nat}
    (found : partner? shape index = some close) :
    shape[index]? = some (some .opening) ∧ shape[close]? = some (some .closing) ∧
      index < close := by
  unfold partner? at found
  split at found
  · rename_i opening
    obtain ⟨distance, foundDistance, rfl⟩ := Option.map_eq_some_iff.1 found
    have closing := closing?_is_closing foundDistance
    rw [List.getElem?_drop, Nat.add_comm] at closing
    exact ⟨opening, closing, by omega⟩
  · cases found

theorem matchFrom_isOk_iff (limit : Option Nat) (index : Nat) (pending : List Pending)
    (entries : List BracketEntry) :
    (∃ table, matchFrom limit index pending entries = .ok table) ↔
      Admitted limit pending.length (entries.map (·.bracket)) := by
  induction entries generalizing index pending with
  | nil => cases pending <;> simp [matchFrom, Admitted]
  | cons entry rest ih =>
      obtain ⟨position, bracket⟩ := entry
      rw [List.map_cons]
      match bracket with
      | none => exact ih (index + 1) pending
      | some .opening =>
          simp only [matchFrom, Admitted]
          cases exceeded? limit (pending.length + 1) with
          | some bound => simp
          | none => simpa using ih (index + 1) (⟨index, position⟩ :: pending)
      | some .closing =>
          cases pending with
          | nil => simp [matchFrom, Admitted]
          | cons innermost outer =>
              rw [List.length_cons, Admitted, ← ih (index + 1) outer, matchFrom]
              cases matchFrom limit (index + 1) outer rest <;> simp [Except.map]

theorem map_add_map_add (found : Option Nat) (first second : Nat) :
    (found.map (· + first)).map (· + second) = found.map (· + (second + first)) := by
  rw [Option.map_map]
  congr 1
  funext distance
  simp only [Function.comp_apply]
  omega

/--
What the table of a scan says about each index: about pending brackets, which are
innermost first, about other indices before the scan, and about the scanned entries.
-/
structure Describes (table : List (Nat × Nat)) (index : Nat) (pending : List Pending)
    (shape : List (Option Bracket)) : Prop where
  awaited : ∀ {depth bracket}, pending[depth]? = some bracket →
    table.lookup bracket.index = (closing? depth shape).map (· + index)
  unrelated : ∀ {key}, key < index → (∀ bracket ∈ pending, bracket.index ≠ key) →
    table.lookup key = none
  scanned : ∀ key, table.lookup (index + key) = (partner? shape key).map (· + index)

namespace Describes

variable {table : List (Nat × Nat)} {index : Nat} {pending : List Pending}
  {shape : List (Option Bracket)}

theorem skip (described : Describes table (index + 1) pending shape)
    (below : ∀ bracket ∈ pending, bracket.index < index) :
    Describes table index pending (none :: shape) where
  awaited found := by
    rw [described.awaited found, closing?, map_add_map_add]
  unrelated less absent := described.unrelated (Nat.lt_succ_of_lt less) absent
  scanned key := by
    cases key with
    | zero =>
        exact described.unrelated (Nat.lt_succ_self index) fun bracket member =>
          Nat.ne_of_lt (below bracket member)
    | succ key =>
        have shift : index + (key + 1) = index + 1 + key := by omega
        rw [partner?_cons, map_add_map_add, ← described.scanned key, shift]

theorem opening {position : Nat}
    (described : Describes table (index + 1) (⟨index, position⟩ :: pending) shape) :
    Describes table index pending (some .opening :: shape) where
  awaited {depth bracket} found := by
    have outer : (⟨index, position⟩ :: pending)[depth + 1]? = some bracket := found
    rw [described.awaited outer, closing?, map_add_map_add]
  unrelated {key} less absent := by
    refine described.unrelated (Nat.lt_succ_of_lt less) fun bracket member => ?_
    rcases List.mem_cons.1 member with rfl | inner
    · exact Nat.ne_of_gt less
    · exact absent bracket inner
  scanned key := by
    cases key with
    | zero =>
        have innermost : (⟨index, position⟩ :: pending)[0]? = some ⟨index, position⟩ := rfl
        have closed := described.awaited innermost
        rw [Nat.add_zero, closed]
        simp only [partner?, List.getElem?_cons_zero, List.drop_succ_cons, List.drop_zero,
          Nat.zero_add, map_add_map_add]
    | succ key =>
        have shift : index + (key + 1) = index + 1 + key := by omega
        rw [partner?_cons, map_add_map_add, ← described.scanned key, shift]

theorem closing {innermost : Pending} (described : Describes table (index + 1) pending shape)
    (below : ∀ bracket ∈ innermost :: pending, bracket.index < index)
    (distinct : ∀ bracket ∈ pending, bracket.index ≠ innermost.index) :
    Describes ((innermost.index, index) :: table) index (innermost :: pending)
      (some .closing :: shape) where
  awaited {depth bracket} found := by
    cases depth with
    | zero =>
        cases found
        rw [List.lookup_cons_self]
        simp only [closing?, Option.map_some, Nat.zero_add]
    | succ depth =>
        have outer : pending[depth]? = some bracket := found
        have differs := distinct bracket (List.mem_of_getElem? outer)
        rw [List.lookup_cons, beq_false_of_ne differs, described.awaited outer, closing?,
          map_add_map_add]
  unrelated {key} less absent := by
    have differs := absent innermost List.mem_cons_self
    rw [List.lookup_cons, beq_false_of_ne (Ne.symm differs)]
    exact described.unrelated (Nat.lt_succ_of_lt less) fun bracket member =>
      absent bracket (List.mem_cons_of_mem _ member)
  scanned key := by
    have differs := below innermost List.mem_cons_self
    rw [List.lookup_cons, beq_false_of_ne (by omega)]
    cases key with
    | zero =>
        exact described.unrelated (Nat.lt_succ_self index) fun bracket member =>
          Nat.ne_of_lt (below bracket (List.mem_cons_of_mem _ member))
    | succ key =>
        have shift : index + (key + 1) = index + 1 + key := by omega
        rw [partner?_cons, map_add_map_add, ← described.scanned key, shift]

end Describes

/-- A scan that succeeds leaves a table that describes all it has seen. -/
theorem describes_of_matchFrom {limit : Option Nat} {index : Nat} {pending : List Pending}
    {entries : List BracketEntry} {table : List (Nat × Nat)}
    (matched : matchFrom limit index pending entries = .ok table)
    (below : ∀ bracket ∈ pending, bracket.index < index)
    (distinct : pending.Pairwise fun first second => second.index ≠ first.index) :
    Describes table index pending (entries.map (·.bracket)) := by
  induction entries generalizing index pending table with
  | nil =>
      cases pending with
      | nil =>
          cases matched
          exact ⟨(fun found => nomatch found), fun _ _ => rfl, fun _ => rfl⟩
      | cons innermost outer => cases matched
  | cons entry rest ih =>
      obtain ⟨position, bracket⟩ := entry
      rw [List.map_cons]
      have below_succ : ∀ bracket ∈ pending, bracket.index < index + 1 := fun bracket member =>
        Nat.lt_succ_of_lt (below bracket member)
      match bracket with
      | none => exact (ih matched below_succ distinct).skip below
      | some .opening =>
          simp only [matchFrom] at matched
          split at matched
          · cases matched
          · refine (ih matched ?_ ?_).opening
            · intro bracket member
              rcases List.mem_cons.1 member with rfl | outer
              · exact Nat.lt_succ_self index
              · exact below_succ bracket outer
            · exact .cons (fun bracket member => Nat.ne_of_lt (below bracket member)) distinct
      | some .closing =>
          cases pending with
          | nil => cases matched
          | cons innermost outer =>
              simp only [matchFrom] at matched
              cases later : matchFrom limit (index + 1) outer rest with
              | error cause => simp [later, Except.map] at matched
              | ok inner =>
                  simp only [later, Except.map, Except.ok.injEq] at matched
                  subst matched
                  obtain ⟨differs, distinct_outer⟩ := List.pairwise_cons.1 distinct
                  exact (ih later (fun bracket member =>
                    below_succ bracket (List.mem_cons_of_mem _ member)) distinct_outer).closing
                    below differs

/-- Brackets have partners in the table exactly where they have them in the text. -/
theorem lookup_pairs {limit : Option Nat} {entries : List BracketEntry}
    {table : List (Nat × Nat)} (matched : pairs limit entries = .ok table) (index : Nat) :
    table.lookup index = partner? (entries.map (·.bracket)) index := by
  have described := describes_of_matchFrom matched (fun _ member => nomatch member) .nil
  simpa using described.scanned index

end Bracket

end FuzzyControl
