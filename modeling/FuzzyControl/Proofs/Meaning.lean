import FuzzyControl.Proofs.Collision

/-!
# What the lexicon of a vocabulary says

The lexicon is compared with the vocabulary that it was built from, without regard to how
it was built: a text is a keyword, the name of one variable, the name of values at the
places where the vocabulary has it, or nothing.
-/

namespace FuzzyControl

/-! ## Places of values -/

namespace Signature

def places (signature : Signature) (owner : Owner) : List Candidate :=
  (List.range signature.values.length).map (⟨owner, ·⟩)

end Signature

namespace Vocabulary

def places (vocabulary : Vocabulary) : List Candidate :=
  vocabulary.inputs.zipIdx.flatMap (fun entry => entry.1.places (.input entry.2)) ++
    vocabulary.outputs.zipIdx.flatMap (fun entry => entry.1.places (.output entry.2))

def valueAt? (vocabulary : Vocabulary) (place : Candidate) : Option String :=
  (vocabulary.signature? place.owner).bind (·.values[place.index]?)

def placesOf (vocabulary : Vocabulary) (text : String) : List Candidate :=
  vocabulary.places.filter fun place => vocabulary.valueAt? place == some text

end Vocabulary

theorem candidatesOf_values (owner : Owner) (text : String) (values : List String) :
    candidatesOf text (values.zipIdx.map fun entry => .shared entry.1 ⟨owner, entry.2⟩) =
      ((List.range values.length).filter (values[·]? == some text)).map (⟨owner, ·⟩) := by
  induction values using List.reverseRecOn with
  | nil => rfl
  | append_singleton values last ih =>
      have earlier : (List.range values.length).filter ((values ++ [last])[·]? == some text) =
          (List.range values.length).filter (values[·]? == some text) := by
        refine List.filter_congr fun index member => ?_
        rw [List.getElem?_append_left (List.mem_range.1 member)]
      have here : (values ++ [last])[values.length]? = some last := List.getElem?_concat_length
      rw [List.zipIdx_append, List.map_append, candidatesOf_append, ih, List.length_append,
        List.length_singleton, List.range_succ, List.filter_append, List.map_append, earlier]
      refine congrArg _ ?_
      rw [Nat.zero_add, List.zipIdx_singleton, List.map_singleton, candidatesOf_shared]
      by_cases same : last = text
      · simp [same]
      · simp [same]

theorem Signature.candidatesOf_eq (signature : Signature) (owner : Owner) (text : String) :
    candidatesOf text (signature.declarations owner) =
      (signature.places owner).filter (fun place => signature.values[place.index]? == some text) := by
  rw [declarations, ← List.singleton_append, candidatesOf_append, candidatesOf_unique,
    List.nil_append, candidatesOf_values, places, List.filter_map]
  rfl

namespace Vocabulary

theorem candidatesOf_signatures (vocabulary : Vocabulary) (make : Nat → Owner) (text : String)
    {signatures : List Signature}
    (declared : ∀ key : Nat, vocabulary.signature? (make key) = signatures[key]?) :
    candidatesOf text (signatures.zipIdx.flatMap fun entry =>
        entry.1.declarations (make entry.2)) =
      (signatures.zipIdx.flatMap fun entry => entry.1.places (make entry.2)).filter
        (fun place => vocabulary.valueAt? place == some text) := by
  rw [candidatesOf, List.filterMap_flatMap, List.filter_flatMap]
  refine List.flatMap_congr fun entry member => ?_
  have here := List.mem_zipIdx_iff_getElem?.1 member
  have own := entry.1.candidatesOf_eq (make entry.2) text
  rw [candidatesOf] at own
  rw [own]
  refine List.filter_congr fun place inside => ?_
  obtain ⟨index, _, rfl⟩ := List.mem_map.1 inside
  rw [valueAt?, declared, here, Option.bind_some]

/-- The candidates of a text are the places of the values that are called by it. -/
theorem candidatesOf_eq_placesOf (vocabulary : Vocabulary) (text : String) :
    candidatesOf text vocabulary.declarations = vocabulary.placesOf text := by
  rw [declarations, candidatesOf_append, candidatesOf_append,
    candidatesOf_signatures vocabulary .input text fun _ => rfl,
    candidatesOf_signatures vocabulary .output text fun _ => rfl, ← List.filter_append]
  rfl

end Vocabulary

/-! ## Texts of a vocabulary -/

/-- The lexicon gives to every text the meaning that it has in the vocabulary. -/
structure Lexicon.Reflects (lexicon : Lexicon) (vocabulary : Vocabulary) : Prop where
  keyword : ∀ (text : String) (keyword : Keyword),
    lexicon.find? text = some (.keyword keyword) ↔ text = keyword.text
  name : ∀ (text : String) (owner : Owner), lexicon.find? text = some owner.lexeme ↔
    ∃ signature, vocabulary.signature? owner = some signature ∧ text = signature.name
  value : ∀ (text : String) (places : List Candidate),
    lexicon.find? text = some (.term places) ↔
      places ≠ [] ∧ places = vocabulary.placesOf text
  unknown : ∀ text : String, lexicon.find? text = none ↔
    (∀ keyword : Keyword, text ≠ keyword.text) ∧ text ∉ vocabulary.names ∧
      text ∉ vocabulary.valueNames
  size : lexicon.size = 12 + (vocabulary.inputs.length + vocabulary.outputs.length) +
    vocabulary.valueNames.toFinset.card
  resolve : ∀ (text : String) (owner : Owner), (lexicon.find? text).bind (·.resolve? owner) =
    (vocabulary.signature? owner).bind (·.indexOf? text)

namespace Vocabulary

variable {vocabulary : Vocabulary} {lexicon : Lexicon}

theorem find?_eq_term_iff (built : vocabulary.lexicon = .ok lexicon) {text : String}
    {places : List Candidate} :
    lexicon.find? text = some (.term places) ↔
      places ≠ [] ∧ places = vocabulary.placesOf text := by
  have records := records_of_lexicon built
  rw [← candidatesOf_eq_placesOf]
  constructor
  · intro found
    rcases records.declared found with member | ⟨nonempty, same⟩
    · exact absurd rfl (isPlain_of_mem_declarations member places)
    · cases same
      exact ⟨nonempty, rfl⟩
  · rintro ⟨nonempty, rfl⟩
    exact records.shared nonempty

theorem find?_eq_none_iff (built : vocabulary.lexicon = .ok lexicon) {text : String} :
    lexicon.find? text = none ↔ (∀ keyword : Keyword, text ≠ keyword.text) ∧
      text ∉ vocabulary.names ∧ text ∉ vocabulary.valueNames := by
  have known : (∃ lexeme, lexicon.find? text = some lexeme) ↔ _ :=
    (records_of_lexicon built).isSome_find?_iff
  rw [claimedTexts_declarations, sharedTexts_declarations, List.mem_append] at known
  rw [← not_mem_keywords_iff, ← not_or, ← not_or, ← or_assoc, ← known,
    Option.eq_none_iff_forall_ne_some, not_exists]

/-- A dangling owner has no value of any name. -/
theorem resolve?_eq_bind_indexOf? (built : vocabulary.lexicon = .ok lexicon) (text : String)
    (owner : Owner) : (lexicon.find? text).bind (·.resolve? owner) =
      (vocabulary.signature? owner).bind (·.indexOf? text) := by
  cases declared : vocabulary.signature? owner with
  | some signature => exact resolve?_eq_indexOf? built declared text
  | none =>
      have absent := vocabulary.find?_candidatesOf owner text
      rw [declared, Option.bind_none] at absent
      cases found : lexicon.find? text with
      | none => rfl
      | some lexeme =>
          cases lexeme with
          | term places =>
              obtain ⟨_, rfl⟩ := (find?_eq_term_iff built).1 found
              rw [candidatesOf_eq_placesOf] at absent
              rw [Option.bind_some, Lexeme.resolve?, absent]
              rfl
          | _ => rfl

theorem size_lexicon (built : vocabulary.lexicon = .ok lexicon) :
    lexicon.size = 12 + (vocabulary.inputs.length + vocabulary.outputs.length) +
      vocabulary.valueNames.toFinset.card := by
  have free : CollisionFree vocabulary.declarations := by
    rcases vocabulary.lexicon_eq with ⟨unambiguous, _⟩ | ⟨_, text, _, refused⟩
    · exact unambiguous_iff_collisionFree.1 unambiguous
    · cases built.symm.trans refused
  have distinct : (lexicon.entries.map (·.1)).Nodup := by
    refine Lexicon.nodup_keys_of_declareAll ?_ built
    exact List.nodup_nil
  rw [(records_of_lexicon built).size_eq distinct free, claimedTexts_declarations,
    sharedTexts_declarations, names]
  simp only [List.length_append, List.length_map]
  rfl

theorem reflects_of_lexicon (built : vocabulary.lexicon = .ok lexicon) :
    lexicon.Reflects vocabulary where
  keyword _ _ := find?_eq_keyword_iff built
  name _ _ := find?_eq_owner_iff built
  value _ _ := find?_eq_term_iff built
  unknown _ := find?_eq_none_iff built
  size := size_lexicon built
  resolve := resolve?_eq_bind_indexOf? built

/--
A vocabulary has a lexicon exactly if its names can be told apart.  The lexicon then says of
every text what it means, in particular which term of a linguistic variable it names, and
otherwise the first text that collides with earlier ones is reported.
-/
theorem lexicon_characterized (vocabulary : Vocabulary) :
    ((∃ lexicon, vocabulary.lexicon = .ok lexicon) ↔ vocabulary.Unambiguous) ∧
    (∀ lexicon, vocabulary.lexicon = .ok lexicon → lexicon.Reflects vocabulary ∧
      ∀ {α : Type} [Scalar α] (linguistic : LinguisticVariable α) (owner : Owner),
        vocabulary.signature? owner = some linguistic.signature → ∀ text : String,
          (lexicon.find? text).bind (·.resolve? owner) = linguistic.termIndex? text) ∧
    (∀ cause, vocabulary.lexicon = .error cause →
      ∃ text, cause = .nameConflict text ∧ FirstCollision vocabulary.declarations text) := by
  refine ⟨?_, fun lexicon built => ⟨reflects_of_lexicon built, ?_⟩, fun cause fails => ?_⟩
  · rcases vocabulary.lexicon_eq with ⟨unambiguous, done⟩ | ⟨ambiguous, text, _, refused⟩
    · exact ⟨fun _ => unambiguous, fun _ => done⟩
    · rw [refused]
      exact ⟨fun ⟨_, built⟩ => (nomatch built), fun unambiguous => absurd unambiguous ambiguous⟩
  · intro α scalar linguistic owner declared text
    rw [resolve?_eq_indexOf? built declared, LinguisticVariable.termIndex?_eq_indexOf?]
  · rcases vocabulary.lexicon_eq with ⟨_, lexicon, built⟩ | ⟨_, text, first, refused⟩
    · cases fails.symm.trans built
    · cases fails.symm.trans refused
      exact ⟨text, rfl, first⟩

/-- Two inputs and an output whose values are called alike, in the output twice. -/
def namesakes : Vocabulary where
  inputs := [⟨"first", ["low", "high"]⟩, ⟨"second", ["high", "low"]⟩]
  outputs := [⟨"result", ["low", "low"]⟩]

/-- An input that is called like a term of the input before it. -/
def overlapping : Vocabulary where
  inputs := [⟨"speed", ["fast"]⟩, ⟨"fast", ["slow"]⟩]
  outputs := []

theorem namesakes_lexicon :
    (∃ lexicon, namesakes.lexicon = .ok lexicon ∧ lexicon.size = 17 ∧
      lexicon.find? "low" = some (.term
        [⟨.input 0, 0⟩, ⟨.input 1, 1⟩, ⟨.output 0, 0⟩, ⟨.output 0, 1⟩]) ∧
      (lexicon.find? "low").bind (·.resolve? (.output 0)) = some 0 ∧
      lexicon.find? "medium" = none) ∧
    overlapping.lexicon = .error (.nameConflict "fast") ∧
      FirstCollision overlapping.declarations "fast" := by
  have unambiguous : namesakes.Unambiguous := by decide
  obtain ⟨lexicon, built⟩ := (lexicon_characterized namesakes).1.2 unambiguous
  obtain ⟨reflects, _⟩ := (lexicon_characterized namesakes).2.1 lexicon built
  have fails : overlapping.lexicon = .error (.nameConflict "fast") := rfl
  obtain ⟨text, same, first⟩ := (lexicon_characterized overlapping).2.2 _ fails
  cases same
  refine ⟨⟨lexicon, built, ?_, ?_, ?_, ?_⟩, fails, first⟩
  · rw [reflects.size]
    decide
  · exact (reflects.value _ _).2 ⟨by decide, by decide⟩
  · rw [reflects.resolve]
    decide
  · exact (reflects.unknown _).2 ⟨not_mem_keywords_iff.1 (by decide), by decide, by decide⟩

end Vocabulary

end FuzzyControl
