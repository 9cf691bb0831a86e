import FuzzyControl.Proofs.Lexicon
import FuzzyControl.Proofs.Naming
import Mathlib.Data.Finset.Card
import Mathlib.Data.List.Basic

/-!
# Collisions between names

A vocabulary has a lexicon exactly if its names can be told apart: the variables have
distinct names, and neither a keyword nor a value of any variable is called like one of
them.  The lexicon then gives every text the meaning that the vocabulary gives to it, and
otherwise the first declaration that meets an earlier one is reported.
-/

namespace FuzzyControl

/-! ## Declarations -/

namespace Declaration

def text : Declaration → String
  | .unique text _ => text
  | .shared text _ => text

/--
A declaration cannot follow earlier ones if it claims a text for itself that they mention,
or shares a text that they claim.
-/
def Collides (earlier : List Declaration) : Declaration → Prop
  | .unique text _ => ∃ declaration ∈ earlier, declaration.text = text
  | .shared text _ => ∃ lexeme, .unique text lexeme ∈ earlier

def claimed? : Declaration → Option String
  | .unique text _ => some text
  | .shared .. => none

def shared? : Declaration → Option String
  | .unique .. => none
  | .shared text _ => some text

end Declaration

def CollisionFree (declarations : List Declaration) : Prop :=
  ∀ before declaration, before ++ [declaration] <+: declarations → ¬declaration.Collides before

/-- The text of the first declaration that collides with the ones before it. -/
def FirstCollision (declarations : List Declaration) (text : String) : Prop :=
  ∃ before declaration, before ++ [declaration] <+: declarations ∧ CollisionFree before ∧
    declaration.Collides before ∧ declaration.text = text

def claimedTexts (declarations : List Declaration) : List String :=
  declarations.filterMap (·.claimed?)

/-- The texts that declarations share, in order and as often as they are shared. -/
def sharedTexts (declarations : List Declaration) : List String :=
  declarations.filterMap (·.shared?)

theorem claimedTexts_append (first second : List Declaration) :
    claimedTexts (first ++ second) = claimedTexts first ++ claimedTexts second :=
  List.filterMap_append

theorem sharedTexts_append (first second : List Declaration) :
    sharedTexts (first ++ second) = sharedTexts first ++ sharedTexts second :=
  List.filterMap_append

theorem mem_claimedTexts_iff {declarations : List Declaration} {text : String} :
    text ∈ claimedTexts declarations ↔ ∃ lexeme, .unique text lexeme ∈ declarations := by
  unfold claimedTexts
  rw [List.mem_filterMap]
  constructor
  · rintro ⟨declaration, member, claims⟩
    cases declaration with
    | unique own lexeme =>
        cases claims
        exact ⟨lexeme, member⟩
    | shared own candidate => cases claims
  · rintro ⟨lexeme, member⟩
    exact ⟨_, member, rfl⟩

theorem mem_sharedTexts_iff {declarations : List Declaration} {text : String} :
    text ∈ sharedTexts declarations ↔ candidatesOf text declarations ≠ [] := by
  unfold sharedTexts candidatesOf
  rw [List.mem_filterMap, ne_eq, List.filterMap_eq_nil_iff, not_forall]
  constructor
  · rintro ⟨declaration, member, shares⟩
    cases declaration with
    | unique own lexeme => cases shares
    | shared own candidate =>
        cases shares
        exact ⟨_, fun absent => by simpa [Declaration.candidate?] using absent member⟩
  · rintro ⟨declaration, found⟩
    rw [Classical.not_imp] at found
    cases declaration with
    | unique own lexeme => exact absurd rfl found.2
    | shared own candidate =>
        by_cases same : own = text
        · exact ⟨_, found.1, congrArg some same⟩
        · exact absurd (if_neg same) found.2

theorem mem_texts_iff {declarations : List Declaration} {text : String} :
    (∃ declaration ∈ declarations, declaration.text = text) ↔
      text ∈ claimedTexts declarations ∨ text ∈ sharedTexts declarations := by
  unfold claimedTexts sharedTexts
  rw [List.mem_filterMap, List.mem_filterMap, ← exists_or]
  refine exists_congr fun declaration => ?_
  cases declaration <;> simp [Declaration.text, Declaration.claimed?, Declaration.shared?]

theorem collisionFree_nil : CollisionFree [] := by
  intro before declaration initial
  exact absurd (List.prefix_nil.1 initial) (List.append_ne_nil_of_right_ne_nil _ (List.cons_ne_nil _ _))

theorem collisionFree_concat_iff {declarations : List Declaration} {last : Declaration} :
    CollisionFree (declarations ++ [last]) ↔
      CollisionFree declarations ∧ ¬last.Collides declarations := by
  constructor
  · intro free
    exact ⟨fun before declaration initial =>
      free before declaration (initial.trans (List.prefix_append _ _)),
      free declarations last (List.prefix_refl _)⟩
  · rintro ⟨free, apart⟩ before declaration initial
    rcases List.prefix_concat_iff.1 initial with whole | inner
    · obtain ⟨rfl, same⟩ := List.append_inj' whole rfl
      cases same
      exact apart
    · exact free before declaration inner

/-- Whether declarations collide does not depend on the order in which texts are claimed and shared. -/
theorem collisionFree_iff {declarations : List Declaration} :
    CollisionFree declarations ↔ (claimedTexts declarations).Nodup ∧
      ∀ text ∈ claimedTexts declarations, text ∉ sharedTexts declarations := by
  induction declarations using List.reverseRecOn with
  | nil => exact ⟨fun _ => ⟨List.nodup_nil, fun _ member => nomatch member⟩, fun _ => collisionFree_nil⟩
  | append_singleton declarations last ih =>
      rw [collisionFree_concat_iff, ih, claimedTexts_append, sharedTexts_append]
      cases last with
      | unique text lexeme =>
          have claims : claimedTexts [.unique text lexeme] = [text] := rfl
          have shares : sharedTexts [.unique text lexeme] = [] := rfl
          have fresh : ¬(Declaration.unique text lexeme).Collides declarations ↔
              text ∉ claimedTexts declarations ∧ text ∉ sharedTexts declarations := by
            rw [Declaration.Collides, mem_texts_iff, not_or]
          rw [claims, shares, fresh, List.append_nil, List.nodup_append_comm, List.singleton_append,
            List.nodup_cons]
          simp only [List.mem_append, List.mem_singleton]
          constructor
          · rintro ⟨⟨distinct, apart⟩, unclaimed, unshared⟩
            refine ⟨⟨unclaimed, distinct⟩, ?_⟩
            rintro other (member | rfl)
            · exact apart other member
            · exact unshared
          · rintro ⟨⟨unclaimed, distinct⟩, apart⟩
            exact ⟨⟨distinct, fun other member => apart other (.inl member)⟩, unclaimed,
              apart text (.inr rfl)⟩
      | shared text candidate =>
          have claims : claimedTexts [.shared text candidate] = [] := rfl
          have shares : sharedTexts [.shared text candidate] = [text] := rfl
          have fresh : ¬(Declaration.shared text candidate).Collides declarations ↔
              text ∉ claimedTexts declarations := by
            rw [Declaration.Collides, mem_claimedTexts_iff]
          rw [claims, shares, fresh, List.append_nil]
          simp only [List.mem_append, List.mem_singleton, not_or]
          constructor
          · rintro ⟨⟨distinct, apart⟩, unclaimed⟩
            exact ⟨distinct, fun other member =>
              ⟨apart other member, fun same => unclaimed (same ▸ member)⟩⟩
          · rintro ⟨distinct, apart⟩
            exact ⟨⟨distinct, fun other member => (apart other member).1⟩,
              fun member => (apart text member).2 rfl⟩

/-! ## Registration -/

namespace Lexicon

variable {lexicon : Lexicon} {declarations : List Declaration}

theorem Records.isSome_find?_iff (records : lexicon.Records declarations) {text : String} :
    (∃ lexeme, lexicon.find? text = some lexeme) ↔
      text ∈ claimedTexts declarations ∨ text ∈ sharedTexts declarations := by
  rw [mem_claimedTexts_iff, mem_sharedTexts_iff]
  constructor
  · rintro ⟨lexeme, found⟩
    rcases records.declared found with claimed | ⟨shared, _⟩
    · exact .inl ⟨lexeme, claimed⟩
    · exact .inr shared
  · rintro (⟨lexeme, claimed⟩ | shared)
    · exact ⟨lexeme, records.unique claimed⟩
    · exact ⟨_, records.shared shared⟩

/-- A declaration is refused exactly if it collides, and with its own text. -/
theorem Records.declare_eq (records : lexicon.Records declarations)
    (plain : ∀ earlier ∈ declarations, earlier.IsPlain) (next : Declaration) :
    (next.Collides declarations ∧ lexicon.declare next = .error (.nameConflict next.text)) ∨
      (¬next.Collides declarations ∧ ∃ larger, lexicon.declare next = .ok larger) := by
  cases next with
  | unique text lexeme =>
      have known : (Declaration.unique text lexeme).Collides declarations ↔
          ∃ own, lexicon.find? text = some own := by
        rw [Declaration.Collides, mem_texts_iff, records.isSome_find?_iff]
      rw [known, declare]
      cases found : lexicon.find? text with
      | none =>
          refine .inr ⟨?_, _, rfl⟩
          rintro ⟨own, absurdity⟩
          cases absurdity
      | some own => exact .inl ⟨⟨own, rfl⟩, rfl⟩
  | shared text candidate =>
      rw [Declaration.Collides, declare]
      by_cases claimed : ∃ own, .unique text own ∈ declarations
      · obtain ⟨own, member⟩ := claimed
        have own_plain := plain _ member
        refine .inl ⟨⟨own, member⟩, ?_⟩
        rw [records.unique member]
        cases own with
        | term candidates => exact absurd rfl (own_plain candidates)
        | _ => rfl
      · refine .inr ⟨claimed, ?_⟩
        cases found : lexicon.find? text with
        | none => exact ⟨_, rfl⟩
        | some own =>
            rcases records.declared found with member | ⟨_, rfl⟩
            · exact absurd ⟨own, member⟩ claimed
            · exact ⟨_, rfl⟩

theorem Records.concat (records : lexicon.Records declarations)
    (plain : ∀ earlier ∈ declarations, earlier.IsPlain) {next : Declaration} {larger : Lexicon}
    (declared : lexicon.declare next = .ok larger) : larger.Records (declarations ++ [next]) := by
  cases next with
  | unique text lexeme => exact records.snoc_unique declared
  | shared text candidate => exact records.snoc_shared plain declared

/--
Registration goes through exactly if no declaration collides with the ones before it, and
otherwise it stops at the first one that does.
-/
theorem Records.declareAll_eq {earlier : List Declaration} (records : lexicon.Records earlier)
    (free : CollisionFree earlier) (plain : ∀ known ∈ earlier ++ declarations, known.IsPlain) :
    (CollisionFree (earlier ++ declarations) ∧
        ∃ larger, lexicon.declareAll declarations = .ok larger) ∨
      ∃ text, FirstCollision (earlier ++ declarations) text ∧
        lexicon.declareAll declarations = .error (.nameConflict text) := by
  induction declarations generalizing lexicon earlier with
  | nil => exact .inl ⟨by rwa [List.append_nil], lexicon, rfl⟩
  | cons next rest ih =>
      have plain_earlier : ∀ known ∈ earlier, known.IsPlain := fun known member =>
        plain known (List.mem_append_left _ member)
      have initial : earlier ++ [next] <+: earlier ++ next :: rest :=
        ⟨rest, by rw [List.append_assoc, List.singleton_append]⟩
      rw [declareAll]
      rcases records.declare_eq plain_earlier next with ⟨collides, refused⟩ | ⟨apart, larger, done⟩
      · exact .inr ⟨next.text, ⟨earlier, next, initial, free, collides, rfl⟩, by rw [refused]⟩
      · have split_eq : earlier ++ next :: rest = earlier ++ [next] ++ rest := by
          rw [List.append_assoc, List.singleton_append]
        rw [done]
        rw [split_eq] at plain ⊢
        exact ih (records.concat plain_earlier done)
          (collisionFree_concat_iff.2 ⟨free, apart⟩) plain

/-! ### Entries -/

theorem mem_keys_iff {text : String} :
    text ∈ lexicon.entries.map (·.1) ↔ ∃ lexeme, lexicon.find? text = some lexeme := by
  obtain ⟨entries⟩ := lexicon
  induction entries with
  | nil => exact ⟨fun member => (nomatch member), fun ⟨_, found⟩ => nomatch found⟩
  | cons entry rest ih =>
      rw [List.map_cons, List.mem_cons, find?_cons, ih]
      by_cases same : text = entry.1
      · simp [same]
      · simp [same]

theorem nodup_keys_of_declare {larger : Lexicon} {next : Declaration}
    (distinct : (lexicon.entries.map (·.1)).Nodup) (declared : lexicon.declare next = .ok larger) :
    (larger.entries.map (·.1)).Nodup := by
  have add {text : String} (fresh : lexicon.find? text = none) (lexeme : Lexeme) :
      ((lexicon.add text lexeme).entries.map (·.1)).Nodup := by
    have absent : text ∉ lexicon.entries.map (·.1) := by
      rw [mem_keys_iff, fresh]
      exact fun ⟨_, found⟩ => nomatch found
    rw [Lexicon.add, List.map_append, List.map_singleton, List.nodup_append_comm,
      List.singleton_append, List.nodup_cons]
    exact ⟨absent, distinct⟩
  have update (text : String) (lexeme : Lexeme) :
      (lexicon.update text lexeme).entries.map (·.1) = lexicon.entries.map (·.1) := by
    rw [Lexicon.update, List.map_map]
    refine List.map_congr_left fun entry _ => ?_
    by_cases same : entry.1 = text <;> simp [same]
  cases next with
  | unique text lexeme =>
      simp only [declare] at declared
      split at declared
      · rename_i fresh
        cases declared
        exact add fresh lexeme
      · cases declared
  | shared text candidate =>
      simp only [declare] at declared
      split at declared
      · rename_i fresh
        cases declared
        exact add fresh _
      · cases declared
        rwa [update]
      · cases declared

theorem nodup_keys_of_declareAll {larger : Lexicon}
    (distinct : (lexicon.entries.map (·.1)).Nodup)
    (declared : lexicon.declareAll declarations = .ok larger) :
    (larger.entries.map (·.1)).Nodup := by
  induction declarations generalizing lexicon with
  | nil =>
      cases declared
      exact distinct
  | cons next rest ih =>
      simp only [declareAll] at declared
      split at declared
      · rename_i step
        exact ih (nodup_keys_of_declare distinct step) declared
      · cases declared

/-- Every text that is declared has one entry. -/
theorem Records.size_eq (records : lexicon.Records declarations)
    (distinct : (lexicon.entries.map (·.1)).Nodup) (free : CollisionFree declarations) :
    lexicon.size = (claimedTexts declarations).length + (sharedTexts declarations).toFinset.card := by
  obtain ⟨claimed_distinct, apart⟩ := collisionFree_iff.1 free
  have keys_eq : (lexicon.entries.map (·.1)).toFinset =
      (claimedTexts declarations).toFinset ∪ (sharedTexts declarations).toFinset := by
    ext text
    rw [Finset.mem_union, List.mem_toFinset, List.mem_toFinset, List.mem_toFinset, mem_keys_iff,
      records.isSome_find?_iff]
  have disjoint : Disjoint (claimedTexts declarations).toFinset
      (sharedTexts declarations).toFinset := by
    rw [Finset.disjoint_left]
    intro text claimed shared
    exact apart text (List.mem_toFinset.1 claimed) (List.mem_toFinset.1 shared)
  calc lexicon.size
      = (lexicon.entries.map (·.1)).length := (List.length_map _).symm
    _ = (lexicon.entries.map (·.1)).toFinset.card := (List.toFinset_card_of_nodup distinct).symm
    _ = (claimedTexts declarations).toFinset.card + (sharedTexts declarations).toFinset.card := by
        rw [keys_eq, Finset.card_union_of_disjoint disjoint]
    _ = _ := by rw [List.toFinset_card_of_nodup claimed_distinct]

end Lexicon

/-! ## Vocabularies -/

namespace Vocabulary

def names (vocabulary : Vocabulary) : List String :=
  vocabulary.inputs.map (·.name) ++ vocabulary.outputs.map (·.name)

def valueNames (vocabulary : Vocabulary) : List String :=
  vocabulary.inputs.flatMap (·.values) ++ vocabulary.outputs.flatMap (·.values)

/-- The names of a vocabulary can be told apart. -/
structure Unambiguous (vocabulary : Vocabulary) : Prop where
  names_distinct : vocabulary.names.Nodup
  names_not_keyword : ∀ name ∈ vocabulary.names, ∀ keyword : Keyword, name ≠ keyword.text
  values_not_keyword : ∀ value ∈ vocabulary.valueNames, ∀ keyword : Keyword, value ≠ keyword.text
  values_not_name : ∀ value ∈ vocabulary.valueNames, value ∉ vocabulary.names

theorem claimedTexts_signatures (make : Nat → Owner) (signatures : List Signature) (start : Nat) :
    claimedTexts ((signatures.zipIdx start).flatMap fun entry =>
      entry.1.declarations (make entry.2)) = signatures.map (·.name) := by
  induction signatures generalizing start with
  | nil => rfl
  | cons signature rest ih =>
      have values : claimedTexts (signature.declarations (make start)) = [signature.name] := by
        simp [claimedTexts, Signature.declarations, Declaration.claimed?]
      rw [List.zipIdx_cons, List.flatMap_cons, claimedTexts_append, ih, values]
      rfl

theorem sharedTexts_signatures (make : Nat → Owner) (signatures : List Signature) (start : Nat) :
    sharedTexts ((signatures.zipIdx start).flatMap fun entry =>
      entry.1.declarations (make entry.2)) = signatures.flatMap (·.values) := by
  induction signatures generalizing start with
  | nil => rfl
  | cons signature rest ih =>
      have values : sharedTexts (signature.declarations (make start)) = signature.values := by
        simp [sharedTexts, Signature.declarations, Declaration.shared?, List.filterMap_map]
      rw [List.zipIdx_cons, List.flatMap_cons, sharedTexts_append, ih, values, List.flatMap_cons]

theorem claimedTexts_declarations (vocabulary : Vocabulary) :
    claimedTexts vocabulary.declarations = Keyword.all.map (·.text) ++ vocabulary.names := by
  rw [declarations, claimedTexts_append, claimedTexts_append, claimedTexts_signatures,
    claimedTexts_signatures]
  rfl

theorem sharedTexts_declarations (vocabulary : Vocabulary) :
    sharedTexts vocabulary.declarations = vocabulary.valueNames := by
  rw [declarations, sharedTexts_append, sharedTexts_append, sharedTexts_signatures,
    sharedTexts_signatures]
  rfl

theorem not_mem_keywords_iff {text : String} :
    text ∉ Keyword.all.map (·.text) ↔ ∀ keyword : Keyword, text ≠ keyword.text := by
  rw [List.mem_map, not_exists]
  exact ⟨fun absent keyword same => absent keyword ⟨Keyword.mem_all keyword, same.symm⟩,
    fun absent keyword ⟨_, same⟩ => absent keyword same.symm⟩

/-- Names can be told apart exactly if their declarations do not collide. -/
theorem unambiguous_iff_collisionFree {vocabulary : Vocabulary} :
    vocabulary.Unambiguous ↔ CollisionFree vocabulary.declarations := by
  have keywords_distinct : (Keyword.all.map (·.text)).Nodup := by decide
  rw [collisionFree_iff, claimedTexts_declarations, sharedTexts_declarations, List.nodup_append']
  constructor
  · rintro ⟨distinct, names_free, values_free, values_apart⟩
    refine ⟨⟨keywords_distinct, distinct, fun text keyword name => ?_⟩, fun text claimed value => ?_⟩
    · exact not_mem_keywords_iff.2 (names_free text name) keyword
    · rcases List.mem_append.1 claimed with keyword | name
      · exact not_mem_keywords_iff.2 (values_free text value) keyword
      · exact values_apart text value name
  · rintro ⟨⟨_, distinct, names_free⟩, values_free⟩
    refine ⟨distinct, fun name member => ?_, fun value member => ?_, fun value member name => ?_⟩
    · exact not_mem_keywords_iff.1 fun keyword => names_free keyword member
    · exact not_mem_keywords_iff.1 fun keyword =>
        values_free value (List.mem_append_left _ keyword) member
    · exact values_free value (List.mem_append_right _ name) member

instance (vocabulary : Vocabulary) : Decidable vocabulary.Unambiguous :=
  decidable_of_iff ((claimedTexts vocabulary.declarations).Nodup ∧
      (claimedTexts vocabulary.declarations).all (· ∉ sharedTexts vocabulary.declarations)) (by
    rw [unambiguous_iff_collisionFree, collisionFree_iff, List.all_eq_true]
    simp only [decide_eq_true_eq])

/-- Names that can be told apart have a lexicon, and otherwise the first collision is reported. -/
theorem lexicon_eq (vocabulary : Vocabulary) :
    (vocabulary.Unambiguous ∧ ∃ lexicon, vocabulary.lexicon = .ok lexicon) ∨
      (¬vocabulary.Unambiguous ∧ ∃ text, FirstCollision vocabulary.declarations text ∧
        vocabulary.lexicon = .error (.nameConflict text)) := by
  rw [unambiguous_iff_collisionFree]
  rcases Lexicon.Records.nil.declareAll_eq collisionFree_nil
    (fun known member => isPlain_of_mem_declarations member) with done | ⟨text, first, refused⟩
  · exact .inl done
  · refine .inr ⟨fun free => ?_, text, first, refused⟩
    obtain ⟨before, declaration, initial, _, collides, _⟩ := first
    exact free before declaration initial collides

end Vocabulary

end FuzzyControl
