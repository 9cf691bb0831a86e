import Mathlib.Tactic.NormNum
import FuzzyControl.Scalar.Real
import FuzzyControl.Proofs.Monotone

/-!
# Polarity

An occurrence of a leaf is even or odd: its own negation counts, and so does every negated
group around it.  A condition follows its even leaves and goes against its odd ones, however
deeply its groups are nested.
-/

namespace FuzzyControl

open Scalar LawfulDegrees OrderedDegrees

/-- The first value is at most the second, or at least the second in the reversed direction. -/
def Directed {β : Type} [LE β] (reversed : Bool) (first second : β) : Prop :=
  if reversed then second ≤ first else first ≤ second

/-! ## Occurrences -/

/-- A leaf of a condition, and whether an odd number of negations applies to it. -/
structure Occurrence where
  proposition : Proposition
  odd : Bool
deriving DecidableEq, Repr

namespace Condition

mutual

/-- The leaves of a condition below an even or an odd number of negated groups. -/
def occurrences (odd : Bool) : Condition → List Occurrence
  | leaf proposition => [⟨proposition, proposition.negated ^^ odd⟩]
  | group _ negated children => occurrencesOf (negated ^^ odd) children

def occurrencesOf (odd : Bool) : List Condition → List Occurrence
  | [] => []
  | child :: rest => occurrences odd child ++ occurrencesOf odd rest

end

mutual

/-- Two conditions of one shape, whose leaves are related at the parity of their occurrence. -/
inductive Matches (related : Bool → Proposition → Proposition → Prop) :
    Bool → Condition → Condition → Prop where
  | leaf {odd : Bool} {first second : Proposition} :
      related (first.negated ^^ odd) first second →
        Matches related odd (.leaf first) (.leaf second)
  | group {odd negated : Bool} {connective : Connective} {children others : List Condition} :
      MatchesAll related (negated ^^ odd) children others →
        Matches related odd (.group connective negated children)
          (.group connective negated others)

inductive MatchesAll (related : Bool → Proposition → Proposition → Prop) :
    Bool → List Condition → List Condition → Prop where
  | nil {odd : Bool} : MatchesAll related odd [] []
  | cons {odd : Bool} {child other : Condition} {rest others : List Condition} :
      Matches related odd child other → MatchesAll related odd rest others →
        MatchesAll related odd (child :: rest) (other :: others)

end

/-- Even leaves keep their hedges or get weaker ones, and odd leaves keep theirs or get stronger. -/
def EasedTo : Condition → Condition → Prop :=
  Matches (fun odd before after => ∃ hedge, after = { before with hedge := hedge } ∧
    Directed odd (Hedge.weakness before.hedge) (Hedge.weakness hedge)) false

section Occurrences

variable {related : Bool → Proposition → Proposition → Prop}

mutual

/-- A condition matches itself if every occurrence of a leaf is related to itself. -/
theorem matches_self {odd : Bool} {condition : Condition}
    (each : ∀ occurrence ∈ condition.occurrences odd,
      related occurrence.odd occurrence.proposition occurrence.proposition) :
    Matches related odd condition condition := by
  match condition with
  | leaf proposition => exact .leaf (each _ (List.mem_singleton.2 rfl))
  | group connective negated children => exact .group (matchesAll_self each)

theorem matchesAll_self {odd : Bool} {children : List Condition}
    (each : ∀ occurrence ∈ occurrencesOf odd children,
      related occurrence.odd occurrence.proposition occurrence.proposition) :
    MatchesAll related odd children children := by
  match children with
  | [] => exact .nil
  | child :: rest =>
      rw [occurrencesOf, List.forall_mem_append] at each
      exact .cons (matches_self each.1) (matchesAll_self each.2)

end

end Occurrences

end Condition

/-! ## Directions -/

section Directions

variable {α : Type} [Scalar α] [OrderedDegrees α]

/-- A complement turns the direction around. -/
theorem Directed.complementIf {negated reversed : Bool} {first second : α}
    (directed : Directed (negated ^^ reversed) first second) :
    Directed reversed (complementIf negated first) (complementIf negated second) := by
  cases negated with
  | false =>
      rw [Bool.false_xor] at directed
      exact directed
  | true =>
      cases reversed with
      | false => exact complement_le_complement directed
      | true => exact complement_le_complement directed

/-- A fold moves in the direction of its degrees. -/
theorem Directed.fold [LawfulDegrees α] {reversed : Bool} (link : Link) {firsts seconds : List α}
    (first_inside : ∀ degree ∈ firsts, IsDegree degree)
    (second_inside : ∀ degree ∈ seconds, IsDegree degree)
    (directed : List.Forall₂ (Directed reversed) firsts seconds) :
    Directed reversed (link.fold firsts) (link.fold seconds) := by
  cases reversed with
  | false => exact link.fold_le_fold first_inside second_inside directed
  | true => exact link.fold_le_fold second_inside first_inside directed.flip

/-- A hedge keeps the direction of the degrees that it reshapes. -/
theorem Directed.reshape {reversed : Bool} (hedge : Option Hedge) {first second : α}
    (first_inside : IsDegree first) (second_inside : IsDegree second)
    (directed : Directed reversed first second) :
    Directed reversed (Hedge.reshape hedge first) (Hedge.reshape hedge second) := by
  cases reversed with
  | false => exact reshape_le_reshape hedge first_inside second_inside directed
  | true => exact reshape_le_reshape hedge second_inside first_inside directed

/-- Hedges reshape a degree in the direction of their weakness. -/
theorem Directed.reshape_weaker {reversed : Bool} {first second : Option Hedge} {degree : α}
    (inside : IsDegree degree)
    (directed : Directed reversed (Hedge.weakness first) (Hedge.weakness second)) :
    Directed reversed (Hedge.reshape first degree) (Hedge.reshape second degree) := by
  cases reversed with
  | false => exact OrderedDegrees.reshape_weaker inside directed
  | true => exact OrderedDegrees.reshape_weaker inside directed

end Directions

/-! ## Conditions -/

/-- The membership that a leaf refers to, before hedge and negation. -/
def Proposition.membership {α : Type} [Scalar α] (memberships : Memberships α)
    (proposition : Proposition) : α :=
  (memberships.degree? proposition.input proposition.term).getD 0

namespace Condition

section Degree

variable {α : Type} [Scalar α] {norms : Norms} {first second : Memberships α}
  {related : Bool → Proposition → Proposition → Prop}

mutual

/-- Conditions that match move in the direction of their leaves. -/
theorem Matches.directed [LawfulDegrees α] [OrderedDegrees α] (first_inside : first.AreDegrees)
    (second_inside : second.AreDegrees)
    (leaves : ∀ {odd : Bool} {before after : Proposition},
      related (before.negated ^^ odd) before after →
        Directed odd (before.degree first) (after.degree second))
    {odd : Bool} {before after : Condition} :
    Matches related odd before after →
      Directed odd (before.degree norms first) (after.degree norms second)
  | .leaf here => leaves here
  | .group inner => by
      -- the members move in the direction that the negation of the group turns around
      refine Directed.complementIf (Directed.fold _ ?_ ?_ ?_)
      · exact isDegree_degrees norms first_inside _
      · exact isDegree_degrees norms second_inside _
      · exact MatchesAll.directed first_inside second_inside leaves inner

theorem MatchesAll.directed [LawfulDegrees α] [OrderedDegrees α]
    (first_inside : first.AreDegrees) (second_inside : second.AreDegrees)
    (leaves : ∀ {odd : Bool} {before after : Proposition},
      related (before.negated ^^ odd) before after →
        Directed odd (before.degree first) (after.degree second))
    {odd : Bool} {before after : List Condition} :
    MatchesAll related odd before after →
      List.Forall₂ (Directed odd) (degrees norms first before) (degrees norms second after)
  | .nil => .nil
  | .cons here later =>
      .cons (Matches.directed first_inside second_inside leaves here)
        (MatchesAll.directed first_inside second_inside leaves later)

end

end Degree

end Condition

/--
In exact arithmetic, with any meaning of the connectives, a condition loses nothing if the
memberships of its even leaves rise and those of its odd leaves fall, and nothing if its even
leaves get weaker hedges and its odd ones stronger hedges.
-/
theorem degree_le_degree_by_polarity {K : Type} [Field K] [LinearOrder K] [IsStrictOrderedRing K]
    (functions : Elementary K) (roots : functions.RaisingRoots) :
    letI := functions.scalar
    ∀ (norms : Norms) (condition : Condition) (first : Memberships K), first.AreDegrees →
      (∀ second : Memberships K, second.AreDegrees →
        (∀ occurrence ∈ condition.occurrences false, Directed occurrence.odd
          (occurrence.proposition.membership first) (occurrence.proposition.membership second)) →
        condition.degree norms first ≤ condition.degree norms second) ∧
      (∀ eased : Condition, condition.EasedTo eased →
        condition.degree norms first ≤ eased.degree norms first) := by
  let := functions.scalar
  have lawful := roots.lawfulDegrees
  have ordered := roots.orderedDegrees
  intro norms condition first first_inside
  constructor
  · intro second second_inside directed
    have same : Condition.Matches (fun odd before after => before = after ∧
        Directed odd (before.membership first) (after.membership second)) false
        condition condition :=
      Condition.matches_self fun occurrence member => ⟨rfl, directed occurrence member⟩
    refine same.directed first_inside second_inside fun {odd before after} leaf => ?_
    obtain ⟨rfl, moved⟩ := leaf
    -- the hedge keeps the direction of the membership, and the negation acts last
    have hedged := moved.reshape before.hedge (first_inside.isDegree_getD _ _)
      (second_inside.isDegree_getD _ _)
    exact hedged.complementIf
  · intro eased matched
    refine matched.directed first_inside first_inside fun {odd before after} leaf => ?_
    obtain ⟨hedge, rfl, moved⟩ := leaf
    have rehedged := moved.reshape_weaker (first_inside.isDegree_getD before.input before.term)
    exact rehedged.complementIf

/-- Not both cheap and, in turn, neither very good nor not late. -/
def reservation : Condition :=
  .group .and true [.leaf ⟨0, 0, false, none⟩,
    .group .or true [.leaf ⟨0, 1, false, some .very⟩, .leaf ⟨0, 2, true, none⟩]]

/-- Cheap gets a stronger hedge below one negated group, and good a weaker one below two. -/
def easedReservation : Condition :=
  .group .and true [.leaf ⟨0, 0, false, some .extremely⟩,
    .group .or true [.leaf ⟨0, 1, false, some .slightly⟩, .leaf ⟨0, 2, true, some .very⟩]]

section Reals

noncomputable local instance realScalar : Scalar ℝ :=
  Elementary.real.scalar

theorem reservation_follows_polarity :
    reservation.occurrences false = [⟨⟨0, 0, false, none⟩, true⟩,
      ⟨⟨0, 1, false, some .very⟩, false⟩, ⟨⟨0, 2, true, none⟩, true⟩] ∧
    reservation.degree ⟨.drasticProduct, .boundedSum⟩ [[(1 : ℝ), 1 / 2, 1]] = 1 / 4 ∧
    (1 / 4 : ℝ) ≤ reservation.degree ⟨.drasticProduct, .boundedSum⟩ [[1 / 2, 1, 1 / 4]] ∧
    (1 / 4 : ℝ) ≤ easedReservation.degree ⟨.drasticProduct, .boundedSum⟩ [[1, 1 / 2, 1]] := by
  have inside (row : List ℝ) (each : ∀ degree ∈ row, 0 ≤ degree ∧ degree ≤ 1) :
      Memberships.AreDegrees [row] := fun other member => List.mem_singleton.1 member ▸ each
  have half_le : (1 / 2 : ℝ) ≤ 1 := by norm_num
  have quarter_le : (1 / 4 : ℝ) ≤ 1 := by norm_num
  obtain ⟨raised, eased⟩ := degree_le_degree_by_polarity Elementary.real
    Elementary.real_raisingRoots ⟨.drasticProduct, .boundedSum⟩ reservation [[1, 1 / 2, 1]]
    (inside _ (by norm_num))
  have degree_eq :
      reservation.degree ⟨.drasticProduct, .boundedSum⟩ [[(1 : ℝ), 1 / 2, 1]] = 1 / 4 := by
    change 1 - Link.apply .drasticProduct (1 : ℝ)
      (1 - Link.apply .boundedSum (1 / 2 * (1 / 2)) (1 - 1)) = 1 / 4
    simp only [Link.apply, Elementary.real.smaller_eq_min]
    norm_num
  have moved : ∀ occurrence ∈ reservation.occurrences false, Directed occurrence.odd
      (occurrence.proposition.membership [[(1 : ℝ), 1 / 2, 1]])
      (occurrence.proposition.membership [[1 / 2, 1, 1 / 4]]) := by
    intro occurrence member
    fin_cases member
    · exact half_le
    · exact half_le
    · exact quarter_le
  have weakened : reservation.EasedTo easedReservation :=
    .group (.cons (.leaf ⟨some .extremely, rfl, (by decide : 0 ≤ 2)⟩) (.cons (.group (.cons
      (.leaf ⟨some .slightly, rfl, (by decide : 1 ≤ 4)⟩) (.cons
        (.leaf ⟨some .very, rfl, (by decide : 1 ≤ 2)⟩) .nil))) .nil))
  exact ⟨rfl, degree_eq, degree_eq.ge.trans (raised _ (inside _ (by norm_num)) moved),
    degree_eq.ge.trans (eased _ weakened)⟩

end Reals

end FuzzyControl
