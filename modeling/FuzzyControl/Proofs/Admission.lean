import FuzzyControl.Proofs.RuleText

/-!
# Which rules are admitted

A rule base admits exactly the rules without empty groups that refer to what is declared.  The
parts of a condition have addresses, which ascend from left to right, so that the leaf that is
blamed is the first one that refers to nothing.
-/

namespace FuzzyControl

/-! ## Addresses -/

namespace Condition

/-- The part of a condition at an address: the indices of children on the way down to it. -/
def partAt? : Condition → List Nat → Option Condition
  | condition, [] => some condition
  | leaf _, _ :: _ => none
  | group _ _ children, index :: address => children[index]?.bind (·.partAt? address)

mutual

def addressed : Condition → List (List Nat × Proposition)
  | leaf proposition => [([], proposition)]
  | group _ _ children => addressedFrom 0 children

/-- The leaves of several conditions, the first of which has the given index. -/
def addressedFrom (index : Nat) : List Condition → List (List Nat × Proposition)
  | [] => []
  | child :: rest =>
      (addressed child).map (fun entry => (index :: entry.1, entry.2)) ++
        addressedFrom (index + 1) rest

end

mutual

theorem map_addressed (condition : Condition) :
    condition.addressed.map (·.2) = condition.propositions := by
  match condition with
  | leaf proposition => rfl
  | group _ _ children => exact map_addressedFrom 0 children

theorem map_addressedFrom (index : Nat) (children : List Condition) :
    (addressedFrom index children).map (·.2) = propositionsOf children := by
  match children with
  | [] => rfl
  | child :: rest =>
      have first := map_addressed child
      have later := map_addressedFrom (index + 1) rest
      rw [addressedFrom, propositionsOf, List.map_append, List.map_map, later, ← first]
      rfl

end

mutual

/-- Exactly the leaves of a condition are listed, each with its address. -/
theorem mem_addressed_iff {condition : Condition} {address : List Nat}
    {proposition : Proposition} :
    (address, proposition) ∈ condition.addressed ↔
      condition.partAt? address = some (.leaf proposition) := by
  match condition, address with
  | leaf own, [] => simp [addressed, partAt?, eq_comm]
  | leaf own, index :: address => simp [addressed, partAt?]
  | group _ _ children, [] =>
      rw [addressed, mem_addressedFrom_iff]
      simp [partAt?]
  | group _ _ children, index :: address =>
      rw [addressed, mem_addressedFrom_iff, partAt?, Option.bind_eq_some_iff]
      constructor
      · rintro ⟨offset, child, inner, same, here, found⟩
        obtain ⟨rfl, rfl⟩ := List.cons.inj same
        rw [Nat.zero_add]
        exact ⟨child, here, found⟩
      · rintro ⟨child, here, found⟩
        exact ⟨index, child, address, by rw [Nat.zero_add], here, found⟩

theorem mem_addressedFrom_iff {start : Nat} {children : List Condition} {address : List Nat}
    {proposition : Proposition} :
    (address, proposition) ∈ addressedFrom start children ↔
      ∃ offset child inner, address = (start + offset) :: inner ∧
        children[offset]? = some child ∧ child.partAt? inner = some (.leaf proposition) := by
  match children with
  | [] => simp [addressedFrom]
  | child :: rest =>
      rw [addressedFrom, List.mem_append, List.mem_map, mem_addressedFrom_iff]
      constructor
      · rintro (⟨⟨inner, own⟩, member, same⟩ | ⟨offset, other, inner, rfl, here, found⟩)
        · obtain ⟨rfl, rfl⟩ := Prod.mk.inj same
          exact ⟨0, child, inner, rfl, rfl, mem_addressed_iff.1 member⟩
        · refine ⟨offset + 1, other, inner, ?_, here, found⟩
          rw [Nat.add_right_comm, Nat.add_assoc]
      · rintro ⟨offset, other, inner, rfl, here, found⟩
        cases offset with
        | zero =>
            cases here
            exact .inl ⟨(inner, proposition), mem_addressed_iff.2 found, rfl⟩
        | succ offset =>
            refine .inr ⟨offset, other, inner, ?_, here, found⟩
            rw [Nat.add_right_comm, Nat.add_assoc]

end

mutual

/-- From left to right the addresses of leaves ascend. -/
theorem addressed_ascending (condition : Condition) :
    condition.addressed.Pairwise fun earlier later => earlier.1 < later.1 := by
  match condition with
  | leaf proposition => exact List.pairwise_singleton _ _
  | group _ _ children => exact addressedFrom_ascending 0 children

theorem addressedFrom_ascending (start : Nat) (children : List Condition) :
    (addressedFrom start children).Pairwise fun earlier later => earlier.1 < later.1 := by
  match children with
  | [] => exact .nil
  | child :: rest =>
      rw [addressedFrom, List.pairwise_append]
      refine ⟨?_, addressedFrom_ascending (start + 1) rest, ?_⟩
      · rw [List.pairwise_map]
        exact (addressed_ascending child).imp fun less => List.Lex.cons less
      · rintro _ member ⟨address, proposition⟩ later
        obtain ⟨entry, _, rfl⟩ := List.mem_map.1 member
        obtain ⟨offset, _, inner, rfl, _, _⟩ := mem_addressedFrom_iff.1 later
        exact List.Lex.rel (by omega)

end

mutual

/-- The search for an empty group looks at all addresses. -/
theorem hasEmptyGroup_iff {condition : Condition} :
    condition.hasEmptyGroup = true ↔
      ∃ address connective negated,
        condition.partAt? address = some (.group connective negated []) := by
  match condition with
  | leaf proposition =>
      refine ⟨nofun, ?_⟩
      rintro ⟨_ | ⟨index, address⟩, _, _, found⟩ <;> cases found
  | group connective negated children =>
      rw [hasEmptyGroup, Bool.or_eq_true, anyEmptyGroup_iff]
      constructor
      · rintro (empty | ⟨index, child, address, own, reversed, here, found⟩)
        · rw [List.isEmpty_iff.1 empty]
          exact ⟨[], connective, negated, rfl⟩
        · refine ⟨index :: address, own, reversed, ?_⟩
          rw [partAt?, here, Option.bind_some, found]
      · rintro ⟨_ | ⟨index, address⟩, own, reversed, found⟩
        · cases found
          exact .inl rfl
        · obtain ⟨child, here, inner⟩ := Option.bind_eq_some_iff.1 found
          exact .inr ⟨index, child, address, own, reversed, here, inner⟩

theorem anyEmptyGroup_iff {children : List Condition} :
    anyEmptyGroup children = true ↔
      ∃ (index : Nat) (child : Condition) (address : List Nat) (connective : Connective)
        (negated : Bool), children[index]? = some child ∧
          child.partAt? address = some (.group connective negated []) := by
  match children with
  | [] => simp [anyEmptyGroup]
  | child :: rest =>
      rw [anyEmptyGroup, Bool.or_eq_true, hasEmptyGroup_iff, anyEmptyGroup_iff]
      constructor
      · rintro (⟨address, found⟩ | ⟨index, found⟩)
        · exact ⟨0, child, address, by simpa using found⟩
        · exact ⟨index + 1, found⟩
      · rintro ⟨_ | index, other, address, connective, negated, here, found⟩
        · cases here
          exact .inl ⟨address, connective, negated, found⟩
        · exact .inr ⟨index, other, address, connective, negated, here, found⟩

end

/-- The propositions are the leaves at all addresses. -/
theorem mem_propositions_iff {condition : Condition} {proposition : Proposition} :
    proposition ∈ condition.propositions ↔
      ∃ address, condition.partAt? address = some (.leaf proposition) := by
  rw [← map_addressed, List.mem_map]
  constructor
  · rintro ⟨⟨address, own⟩, member, rfl⟩
    exact ⟨address, mem_addressed_iff.1 member⟩
  · rintro ⟨address, here⟩
    exact ⟨(address, proposition), mem_addressed_iff.2 here, rfl⟩

/-- A proposition that only good ones precede is a leaf whose smaller addresses hold good ones. -/
theorem exists_first_iff {condition : Condition} {good bad : Proposition → Prop} :
    (∃ before proposition after, condition.propositions = before ++ proposition :: after ∧
        (∀ other ∈ before, good other) ∧ bad proposition) ↔
      ∃ address proposition, condition.partAt? address = some (.leaf proposition) ∧
        bad proposition ∧
        ∀ earlier < address, ∀ other,
          condition.partAt? earlier = some (.leaf other) → good other := by
  have ascending := addressed_ascending condition
  rw [← map_addressed]
  constructor
  · rintro ⟨before, proposition, after, split, before_good, here_bad⟩
    obtain ⟨front, back, entries, rfl, back_eq⟩ := List.map_eq_append_iff.1 split
    obtain ⟨⟨address, own⟩, rest, rfl, rfl, rfl⟩ := List.map_eq_cons_iff.1 back_eq
    rw [entries, List.pairwise_append, List.pairwise_cons] at ascending
    obtain ⟨-, ⟨later, -⟩, -⟩ := ascending
    have here : (address, own) ∈ condition.addressed := by
      rw [entries]
      exact List.mem_append_right _ List.mem_cons_self
    refine ⟨address, own, mem_addressed_iff.1 here, here_bad, ?_⟩
    intro earlier less other found
    have listed : (earlier, other) ∈ condition.addressed := mem_addressed_iff.2 found
    rw [entries, List.mem_append, List.mem_cons] at listed
    rcases listed with first | same | last
    · exact before_good other (List.mem_map_of_mem first)
    · cases same
      exact absurd less (List.lt_irrefl _)
    · exact absurd less (List.lt_asymm (later _ last))
  · rintro ⟨address, proposition, here, here_bad, earlier_good⟩
    obtain ⟨front, back, entries⟩ := List.append_of_mem (mem_addressed_iff.2 here)
    rw [entries, List.pairwise_append] at ascending
    refine ⟨front.map (·.2), proposition, back.map (·.2), ?_, ?_, here_bad⟩
    · rw [entries, List.map_append, List.map_cons]
    · intro other member
      obtain ⟨⟨earlier, own⟩, listed, rfl⟩ := List.mem_map.1 member
      have found : (earlier, own) ∈ condition.addressed := by
        rw [entries]
        exact List.mem_append_left _ listed
      have less := ascending.2.2 _ listed _ List.mem_cons_self
      exact earlier_good earlier less own (mem_addressed_iff.1 found)

end Condition

/-! ## Checks of rules -/

namespace RuleBase

variable {α ω : Type} [Scalar α]

def GroupsFilled (condition : Condition) : Prop :=
  ∀ address connective negated, condition.partAt? address ≠ some (.group connective negated [])

def Covers (self : RuleBase α ω) (proposition : Proposition) : Prop :=
  ∃ input, self.inputs[proposition.input]? = some input ∧ proposition.term < input.terms.length

/-- What is wrong with a reference to a part of `found`: the whole is missing, or the part is. -/
inductive Lacks {β : Type} (found : Option β) (name : β → String) (size : β → Nat) (index : Nat) :
    Error α → Prop where
  | whole (missing : found = none) : Lacks found name size index .unknownVariable
  | part {entry : β} (declared : found = some entry) (beyond : size entry ≤ index) :
      Lacks found name size index (.unknownTerm (name entry) index)

def Misses (self : RuleBase α ω) (proposition : Proposition) : Error α → Prop :=
  Lacks self.inputs[proposition.input]? (·.name) (·.terms.length) proposition.term

variable {self : RuleBase α ω}

theorem groupsFilled_iff {condition : Condition} :
    GroupsFilled condition ↔ condition.hasEmptyGroup = false := by
  rw [← Bool.not_eq_true, Condition.hasEmptyGroup_iff]
  simp only [GroupsFilled, not_exists, ne_eq]

omit [Scalar α] in
/-- A check that looks an entry up, and then an index within it, fails for what is lacking. -/
theorem Lacks.eq_error_iff {β : Type} {found : Option β} {name : β → String} {size : β → Nat}
    {index : Nat} {check : Except (Error α) Unit} {cause : Error α}
    (absent : found = none → check = .error .unknownVariable)
    (present : ∀ entry, found = some entry →
      check = if index < size entry then .ok () else .error (.unknownTerm (name entry) index)) :
    check = .error cause ↔ Lacks found name size index cause := by
  cases found with
  | none =>
      rw [absent rfl, Except.error.injEq]
      constructor
      · rintro rfl
        exact .whole rfl
      · rintro (_ | ⟨declared, _⟩)
        · rfl
        · cases declared
  | some entry =>
      rw [present entry rfl]
      by_cases inside : index < size entry
      · rw [if_pos inside]
        constructor
        · intro fails
          cases fails
        · rintro (missing | ⟨declared, beyond⟩)
          · cases missing
          · cases declared
            exact absurd inside (Nat.not_lt_of_le beyond)
      · rw [if_neg inside, Except.error.injEq]
        constructor
        · rintro rfl
          exact .part rfl (Nat.le_of_not_lt inside)
        · rintro (missing | ⟨declared, _⟩)
          · cases missing
          · cases declared
            rfl

theorem checkProposition_eq_error_iff {proposition : Proposition} {cause : Error α} :
    self.checkProposition proposition = .error cause ↔ self.Misses proposition cause :=
  Lacks.eq_error_iff (fun missing => by rw [checkProposition, missing])
    (fun input declared => by rw [checkProposition, declared])

variable [OutputVariable ω]

def CoversGoal (self : RuleBase α ω) (conclusion : Conclusion) : Prop :=
  ∃ output, self.outputs[conclusion.output]? = some output ∧
    conclusion.value < OutputVariable.valueCount output

/-- All groups have children, and all leaves and the conclusion refer to what is declared. -/
structure Admits (self : RuleBase α ω) (statement : Statement) : Prop where
  filled : GroupsFilled statement.condition
  premised : ∀ address proposition,
    statement.condition.partAt? address = some (.leaf proposition) → self.Covers proposition
  concluded : self.CoversGoal statement.conclusion

def MissesGoal (self : RuleBase α ω) (conclusion : Conclusion) : Error α → Prop :=
  Lacks self.outputs[conclusion.output]? OutputVariable.name OutputVariable.valueCount
    conclusion.value

/--
The first thing that is wrong with a statement: an empty group anywhere, otherwise the leftmost
leaf that refers to nothing, otherwise the conclusion.
-/
inductive FirstDefect (self : RuleBase α ω) (statement : Statement) : Error α → Prop where
  | group {address : List Nat} {connective : Connective} {negated : Bool}
      (empty : statement.condition.partAt? address = some (.group connective negated [])) :
      FirstDefect self statement .emptyConditions
  | leaf {address : List Nat} {proposition : Proposition} {cause : Error α}
      (filled : GroupsFilled statement.condition)
      (here : statement.condition.partAt? address = some (.leaf proposition))
      (misses : self.Misses proposition cause)
      (leftmost : ∀ earlier < address, ∀ other,
        statement.condition.partAt? earlier = some (.leaf other) → self.Covers other) :
      FirstDefect self statement cause
  | conclusion {cause : Error α} (filled : GroupsFilled statement.condition)
      (premised : ∀ address proposition,
        statement.condition.partAt? address = some (.leaf proposition) → self.Covers proposition)
      (misses : self.MissesGoal statement.conclusion cause) : FirstDefect self statement cause

theorem checkConclusion_eq_error_iff {conclusion : Conclusion} {cause : Error α} :
    self.checkConclusion conclusion = .error cause ↔ self.MissesGoal conclusion cause :=
  Lacks.eq_error_iff (fun missing => by rw [checkConclusion, missing])
    (fun output declared => by rw [checkConclusion, declared])

/-- Propositions are checked one after another, and the first that fails is blamed. -/
theorem checkPropositions_eq_error_iff {propositions : List Proposition} {cause : Error α} :
    self.checkPropositions propositions = .error cause ↔
      ∃ before proposition after, propositions = before ++ proposition :: after ∧
        (∀ other ∈ before, self.Covers other) ∧ self.Misses proposition cause := by
  induction propositions with
  | nil => simp [checkPropositions]
  | cons first rest ih =>
      rw [checkPropositions]
      cases checked : self.checkProposition first with
      | error found =>
          have misses := checkProposition_eq_error_iff.1 checked
          rw [Outcome.error_bind]
          constructor
          · intro same
            cases same
            exact ⟨[], first, rest, rfl, List.forall_mem_nil _, misses⟩
          · rintro ⟨_ | ⟨other, before⟩, proposition, after, same, covered, blamed⟩
            · cases same
              rw [← checked, checkProposition_eq_error_iff.2 blamed]
            · cases same
              have passes := checkProposition_eq_ok_iff.2
                (propositionWithin_iff.2 (covered first List.mem_cons_self))
              cases checked.symm.trans passes
      | ok done =>
          have covered_first := propositionWithin_iff.1 (checkProposition_eq_ok_iff.1 checked)
          rw [Outcome.ok_bind, ih]
          constructor
          · rintro ⟨before, proposition, after, rfl, covered, blamed⟩
            exact ⟨first :: before, proposition, after, rfl,
              List.forall_mem_cons.2 ⟨covered_first, covered⟩, blamed⟩
          · rintro ⟨_ | ⟨other, before⟩, proposition, after, same, covered, blamed⟩
            · cases same
              cases checked.symm.trans (checkProposition_eq_error_iff.2 blamed)
            · cases same
              exact ⟨before, proposition, after, rfl, (List.forall_mem_cons.1 covered).2, blamed⟩

/-- What is admitted is what refers to existing parts of the vocabulary only. -/
theorem admits_iff_within {statement : Statement} :
    self.Admits statement ↔ statement.Within self.vocabulary := by
  constructor
  · rintro ⟨filled, premised, concluded⟩
    refine ⟨groupsFilled_iff.1 filled, ?_, conclusionWithin_iff.2 concluded⟩
    intro proposition member
    obtain ⟨address, here⟩ := Condition.mem_propositions_iff.1 member
    exact propositionWithin_iff.2 (premised address proposition here)
  · rintro ⟨nonempty, premised, concluded⟩
    refine ⟨groupsFilled_iff.2 nonempty, ?_, conclusionWithin_iff.1 concluded⟩
    intro address proposition here
    exact propositionWithin_iff.1
      (premised proposition (Condition.mem_propositions_iff.2 ⟨address, here⟩))

/-- The three checks in their order find the first defect, and nothing else. -/
theorem checkStatement_eq_error_iff {statement : Statement} {cause : Error α} :
    self.checkStatement statement = .error cause ↔ self.FirstDefect statement cause := by
  unfold checkStatement
  constructor
  · intro fails
    split at fails
    · rename_i empty
      cases fails
      obtain ⟨address, connective, negated, here⟩ := Condition.hasEmptyGroup_iff.1 empty
      exact .group here
    · rename_i nonempty
      have filled := groupsFilled_iff.2 (Bool.eq_false_iff.2 nonempty)
      cases checked : self.checkPropositions statement.condition.propositions with
      | error found =>
          rw [checked] at fails
          cases fails
          obtain ⟨address, proposition, here, misses, leftmost⟩ :=
            Condition.exists_first_iff.1 (checkPropositions_eq_error_iff.1 checked)
          exact .leaf filled here misses leftmost
      | ok done =>
          rw [checked, Outcome.ok_bind] at fails
          refine .conclusion filled ?_ (checkConclusion_eq_error_iff.1 fails)
          intro address proposition here
          exact propositionWithin_iff.1 (checkPropositions_eq_ok_iff.1 checked proposition
            (Condition.mem_propositions_iff.2 ⟨address, here⟩))
  · intro defect
    cases defect with
    | group here =>
        rw [if_pos (Condition.hasEmptyGroup_iff.2 ⟨_, _, _, here⟩)]
    | leaf filled here misses leftmost =>
        have checked := checkPropositions_eq_error_iff.2
          (Condition.exists_first_iff.2 ⟨_, _, here, misses, leftmost⟩)
        rw [groupsFilled_iff.1 filled, if_neg Bool.false_ne_true, checked, Outcome.error_bind]
    | conclusion filled premised misses =>
        have checked : self.checkPropositions statement.condition.propositions = .ok () := by
          refine checkPropositions_eq_ok_iff.2 fun proposition member => ?_
          obtain ⟨address, here⟩ := Condition.mem_propositions_iff.1 member
          exact propositionWithin_iff.2 (premised address proposition here)
        rw [groupsFilled_iff.1 filled, if_neg Bool.false_ne_true, checked, Outcome.ok_bind]
        exact checkConclusion_eq_error_iff.2 misses

/--
Adding a rule succeeds exactly if the rule is admitted, and then the rule is appended and all
else is kept.  Otherwise the error is the first defect of the rule and the rule base is kept.
-/
theorem addRule_exact {δ : Type} [AdjustableOutput α ω δ] (self : RuleBase α ω) (rule : Rule α) :
    (∀ changed, self.addRule rule = .ok changed ↔
      self.Admits rule.toStatement ∧ changed = { self with rules := self.rules ++ [rule] }) ∧
    (∀ cause, self.addRule rule = .error cause ↔ self.FirstDefect rule.toStatement cause) ∧
    ∀ cause, self.addRule rule = .error cause →
      self.perform (.addRule rule : Operation α ω δ) = self := by
  refine ⟨fun changed => ?_, fun cause => ?_, fun cause fails => ?_⟩
  · rw [admits_iff_within, addRule_eq_ok_iff, push]
  · rw [← checkStatement_eq_error_iff, addRule]
    exact Outcome.bind_ok_eq_error_iff
  · rw [perform, apply, fails]

/-- A bad leaf is blamed before the bad leaves to its right, and after an empty group anywhere. -/
theorem tipping_refuses :
    tipping.addRule (.ofStatement
        ⟨.group .or false [.leaf ⟨0, 1, false, none⟩,
            .group .and true [.leaf ⟨0, 5, false, none⟩, .leaf ⟨7, 0, false, none⟩]],
          ⟨3, 0, false⟩⟩) = .error (.unknownTerm "food" 5) ∧
      tipping.addRule (.ofStatement
        ⟨.group .or false [.leaf ⟨0, 5, false, none⟩, .group .and true [.group .or false []]],
          ⟨0, 0, false⟩⟩) = .error .emptyConditions ∧
      tipping.perform (.addRule (.ofStatement
        ⟨.group .or false [.leaf ⟨0, 5, false, none⟩, .group .and true [.group .or false []]],
          ⟨0, 0, false⟩⟩)) = tipping := by
  refine ⟨?_, ?_, ?_⟩
  · refine ((addRule_exact tipping _).2.1 _).2 ?_
    have misses : tipping.Misses ⟨0, 5, false, none⟩ (.unknownTerm "food" 5) :=
      @Lacks.part Float (LinguisticVariable Float) _ (·.name) (·.terms.length) 5 food rfl
        (by decide)
    refine @FirstDefect.leaf Float Signature _ _ tipping _ [1, 0] _ _ ?_ rfl misses ?_
    · exact groupsFilled_iff.2 rfl
    · intro earlier less other found
      have listed := Condition.mem_addressed_iff.2 found
      simp only [Rule.ofStatement, Condition.addressed, Condition.addressedFrom, List.map_cons,
        List.map_nil, List.append_nil, List.cons_append, List.nil_append, List.mem_cons,
        Prod.mk.injEq, List.not_mem_nil, or_false] at listed
      obtain ⟨-, rfl⟩ | ⟨rfl, -⟩ | ⟨rfl, -⟩ := listed
      · exact ⟨food, rfl, by decide⟩
      · exact absurd less (List.lt_irrefl _)
      · exact absurd less (by decide)
  · refine ((addRule_exact tipping _).2.1 _).2 ?_
    exact @FirstDefect.group Float Signature _ _ tipping _ [1, 0] .or false rfl
  · exact (addRule_exact tipping _).2.2 .emptyConditions rfl

end RuleBase

end FuzzyControl
