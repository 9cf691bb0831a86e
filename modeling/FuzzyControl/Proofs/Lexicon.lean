import FuzzyControl.Language.Lexicon

/-!
# The meanings that a lexicon records

Declarations that are registered without a conflict are all found again: a text
with a meaning of its own has that meaning, and a shared text has all its candidates
in the order of registration.  For a vocabulary this says which tokens are keywords,
which are names, and how the name of a value is resolved within one variable.
-/

namespace FuzzyControl

/-- Keywords differ in their texts. -/
theorem Keyword.text_injective {first second : Keyword} (same : first.text = second.text) :
    first = second := by
  have found := ofText?_text first
  rw [same, ofText?_text] at found
  exact (Option.some.inj found).symm

namespace Declaration

def candidate? (text : String) : Declaration → Option Candidate
  | .unique .. => none
  | .shared own candidate => if own = text then some candidate else none

def IsPlain : Declaration → Prop
  | .unique _ lexeme => ∀ candidates, lexeme ≠ .term candidates
  | .shared .. => True

end Declaration

def candidatesOf (text : String) (declarations : List Declaration) : List Candidate :=
  declarations.filterMap (·.candidate? text)

theorem candidatesOf_append (text : String) (first second : List Declaration) :
    candidatesOf text (first ++ second) =
      candidatesOf text first ++ candidatesOf text second :=
  List.filterMap_append

theorem candidatesOf_unique (text other : String) (lexeme : Lexeme) :
    candidatesOf text [.unique other lexeme] = [] :=
  rfl

theorem candidatesOf_shared (text other : String) (candidate : Candidate) :
    candidatesOf text [.shared other candidate] = if other = text then [candidate] else [] := by
  unfold candidatesOf
  rw [List.filterMap_cons, List.filterMap_nil]
  by_cases same : other = text
  · simp only [Declaration.candidate?, if_pos same]
  · simp only [Declaration.candidate?, if_neg same]

namespace Lexicon

theorem find?_cons (entry : String × Lexeme) (rest : List (String × Lexeme)) (text : String) :
    (Lexicon.mk (entry :: rest)).find? text =
      if text = entry.1 then some entry.2 else (Lexicon.mk rest).find? text := by
  obtain ⟨own, meaning⟩ := entry
  unfold find?
  by_cases same : text = own
  · rw [if_pos same, same, List.lookup_cons_self]
  · rw [if_neg same, List.lookup_cons, beq_false_of_ne same]

theorem find?_add (lexicon : Lexicon) (text : String) (lexeme : Lexeme) (other : String) :
    (lexicon.add text lexeme).find? other =
      (lexicon.find? other).or (if other = text then some lexeme else none) := by
  have single := find?_cons (text, lexeme) [] other
  unfold find? add at *
  rw [List.lookup_append, single]
  rfl

/-- Replacing the meaning of one text changes no other text. -/
theorem find?_update (lexicon : Lexicon) (text : String) (lexeme : Lexeme) (other : String) :
    (lexicon.update text lexeme).find? other =
      if other = text then (lexicon.find? text).map fun _ => lexeme else lexicon.find? other := by
  obtain ⟨entries⟩ := lexicon
  induction entries with
  | nil => simp [update, find?]
  | cons entry rest ih =>
      have step : (Lexicon.mk (entry :: rest)).update text lexeme =
          ⟨(if entry.1 = text then (text, lexeme) else entry) ::
            ((Lexicon.mk rest).update text lexeme).entries⟩ := rfl
      rw [step, find?_cons, find?_cons, find?_cons, ih]
      by_cases own : entry.1 = text
      · by_cases same : other = text <;> simp [own, same]
      · by_cases same : other = text
        · simp [own, same, Ne.symm own]
        · simp [own, same]

/-- A text is given a meaning of its own only if it has none. -/
theorem declare_unique {lexicon larger : Lexicon} {text : String} {lexeme : Lexeme}
    (declared : lexicon.declare (.unique text lexeme) = .ok larger) :
    lexicon.find? text = none ∧
      ∀ other, larger.find? other = if other = text then some lexeme else lexicon.find? other := by
  simp only [declare] at declared
  split at declared
  · rename_i fresh
    cases declared
    refine ⟨fresh, fun other => ?_⟩
    rw [find?_add]
    by_cases same : other = text
    · rw [if_pos same, if_pos same, same, fresh, Option.none_or]
    · rw [if_neg same, if_neg same, Option.or_none]
  · cases declared

/-- A shared text is new or has candidates already, and the new one comes last. -/
theorem declare_shared {lexicon larger : Lexicon} {text : String} {candidate : Candidate}
    (declared : lexicon.declare (.shared text candidate) = .ok larger) :
    ∃ earlier, (lexicon.find? text = none ∧ earlier = [] ∨
        lexicon.find? text = some (.term earlier)) ∧
      ∀ other, larger.find? other =
        if other = text then some (.term (earlier ++ [candidate])) else lexicon.find? other := by
  simp only [declare] at declared
  split at declared
  · rename_i fresh
    cases declared
    refine ⟨[], .inl ⟨fresh, rfl⟩, fun other => ?_⟩
    rw [find?_add]
    by_cases same : other = text
    · rw [if_pos same, if_pos same, same, fresh, Option.none_or, List.nil_append]
    · rw [if_neg same, if_neg same, Option.or_none]
  · rename_i earlier known
    cases declared
    refine ⟨earlier, .inr known, fun other => ?_⟩
    rw [find?_update, known, Option.map_some]
  · cases declared

/-- The meanings in a lexicon are exactly those that were declared. -/
structure Records (lexicon : Lexicon) (declarations : List Declaration) : Prop where
  unique : ∀ {text lexeme}, .unique text lexeme ∈ declarations → lexicon.find? text = some lexeme
  shared : ∀ {text}, candidatesOf text declarations ≠ [] →
    lexicon.find? text = some (.term (candidatesOf text declarations))
  declared : ∀ {text lexeme}, lexicon.find? text = some lexeme →
    .unique text lexeme ∈ declarations ∨
      (candidatesOf text declarations ≠ [] ∧ lexeme = .term (candidatesOf text declarations))

namespace Records

theorem nil : Records ⟨[]⟩ [] where
  unique member := nomatch member
  shared nonempty := absurd rfl nonempty
  declared found := nomatch found

theorem snoc_unique {lexicon larger : Lexicon} {declarations : List Declaration}
    (records : lexicon.Records declarations) {text : String} {lexeme : Lexeme}
    (declared : lexicon.declare (.unique text lexeme) = .ok larger) :
    larger.Records (declarations ++ [.unique text lexeme]) := by
  obtain ⟨fresh, meaning⟩ := declare_unique declared
  have keeps {other : String} {own : Lexeme} (known : lexicon.find? other = some own) :
      larger.find? other = some own := by
    rw [meaning, if_neg, known]
    rintro rfl
    cases fresh.symm.trans known
  have candidates_eq (other : String) :
      candidatesOf other (declarations ++ [.unique text lexeme]) =
        candidatesOf other declarations := by
    rw [candidatesOf_append, candidatesOf_unique, List.append_nil]
  refine ⟨fun {other own} member => ?_, fun {other} nonempty => ?_, fun {other own} found => ?_⟩
  · rcases List.mem_append.1 member with earlier | last
    · exact keeps (records.unique earlier)
    · cases List.mem_singleton.1 last
      rw [meaning, if_pos rfl]
  · rw [candidates_eq] at nonempty ⊢
    exact keeps (records.shared nonempty)
  · rw [candidates_eq]
    rw [meaning] at found
    split at found
    · rename_i same
      cases found
      exact .inl (List.mem_append_right _ (same ▸ List.mem_singleton_self _))
    · exact (records.declared found).imp_left (List.mem_append_left _)

theorem snoc_shared {lexicon larger : Lexicon} {declarations : List Declaration}
    (records : lexicon.Records declarations) (plain : ∀ earlier ∈ declarations, earlier.IsPlain)
    {text : String} {candidate : Candidate}
    (declared : lexicon.declare (.shared text candidate) = .ok larger) :
    larger.Records (declarations ++ [.shared text candidate]) := by
  obtain ⟨earlier, known, meaning⟩ := declare_shared declared
  have not_unique {own : Lexeme} (member : .unique text own ∈ declarations) : False := by
    rcases known with ⟨fresh, _⟩ | known
    · cases fresh.symm.trans (records.unique member)
    · cases (records.unique member).symm.trans known
      exact plain _ member earlier rfl
  have earlier_eq : earlier = candidatesOf text declarations := by
    rcases known with ⟨fresh, rfl⟩ | known
    · by_cases none : candidatesOf text declarations = []
      · exact none.symm
      · cases fresh.symm.trans (records.shared none)
    · rcases records.declared known with member | ⟨_, same⟩
      · exact (not_unique member).elim
      · exact Lexeme.term.inj same
  have candidates_eq (other : String) :
      candidatesOf other (declarations ++ [.shared text candidate]) =
        if other = text then earlier ++ [candidate] else candidatesOf other declarations := by
    rw [candidatesOf_append, candidatesOf_shared]
    by_cases same : other = text
    · rw [if_pos same, if_pos same.symm, same, earlier_eq]
    · rw [if_neg same, if_neg (Ne.symm same), List.append_nil]
  refine ⟨fun {other own} member => ?_, fun {other} nonempty => ?_, fun {other own} found => ?_⟩
  · rcases List.mem_append.1 member with before | last
    · rw [meaning, if_neg, records.unique before]
      rintro rfl
      exact not_unique before
    · cases List.mem_singleton.1 last
  · rw [candidates_eq] at nonempty ⊢
    rw [meaning]
    split
    · rfl
    · rename_i other_ne
      rw [if_neg other_ne] at nonempty
      exact records.shared nonempty
  · rw [candidates_eq]
    rw [meaning] at found
    split at found
    · rename_i same
      cases found
      rw [if_pos same]
      exact .inr ⟨by simp, rfl⟩
    · rename_i other_ne
      rw [if_neg other_ne]
      exact (records.declared found).imp_left (List.mem_append_left _)

/-- Declarations without a conflict are recorded after the earlier ones. -/
theorem append {lexicon larger : Lexicon} {earlier declarations : List Declaration}
    (records : lexicon.Records earlier)
    (plain : ∀ declaration ∈ earlier ++ declarations, declaration.IsPlain)
    (declared : lexicon.declareAll declarations = .ok larger) :
    larger.Records (earlier ++ declarations) := by
  induction declarations generalizing lexicon earlier with
  | nil =>
      cases declared
      rwa [List.append_nil]
  | cons declaration rest ih =>
      simp only [declareAll] at declared
      split at declared
      · rename_i next step
        have split_eq : earlier ++ declaration :: rest = earlier ++ [declaration] ++ rest := by simp
        rw [split_eq] at plain ⊢
        refine ih ?_ plain declared
        cases declaration with
        | unique text lexeme => exact records.snoc_unique step
        | shared text candidate =>
            exact records.snoc_shared
              (fun known member => plain known (by simp [member])) step
      · cases declared

end Records

end Lexicon

/-! ## The lexicon of a vocabulary -/

namespace Vocabulary

def signature? (vocabulary : Vocabulary) : Owner → Option Signature
  | .input key => vocabulary.inputs[key]?
  | .output key => vocabulary.outputs[key]?

end Vocabulary

theorem find?_candidatesOf_values (owner own : Owner) (text : String) (values : List String)
    (start : Nat) :
    (candidatesOf text ((values.zipIdx start).map fun entry =>
        .shared entry.1 ⟨owner, entry.2⟩)).find? (·.owner == own) =
      if owner = own then
        (values.findIdx? (· == text)).map fun index => ⟨owner, index + start⟩
      else none := by
  induction values generalizing start with
  | nil => simp [candidatesOf]
  | cons value rest ih =>
      rw [List.zipIdx_cons, List.map_cons, ← List.singleton_append, candidatesOf_append,
        candidatesOf_shared, List.find?_append, ih, List.findIdx?_cons]
      by_cases same : value = text
      · by_cases owned : owner = own <;> simp [same, owned]
      · by_cases owned : owner = own
        · have shift : (fun index => (⟨own, index + (start + 1)⟩ : Candidate)) =
              (fun index => ⟨own, index + start⟩) ∘ (· + 1) := by
            funext index
            simp only [Function.comp_apply, Nat.add_assoc, Nat.add_comm 1]
          simp only [owned, if_true, if_neg same, List.find?_nil, Option.none_or,
            beq_false_of_ne same, Bool.false_eq_true, if_false, Option.map_map, shift]
        · simp [same, owned]

/-- Within its owner a text stands for the first value with that name. -/
theorem Signature.find?_candidatesOf (signature : Signature) (owner own : Owner) (text : String) :
    (candidatesOf text (signature.declarations owner)).find? (·.owner == own) =
      if owner = own then (signature.indexOf? text).map (⟨owner, ·⟩) else none := by
  unfold Signature.declarations
  rw [← List.singleton_append, candidatesOf_append, candidatesOf_unique, List.nil_append,
    find?_candidatesOf_values]
  rfl

theorem find?_candidatesOf_signatures {make : Nat → Owner} {own : Owner} (text : String)
    (signatures : List Signature) (start : Nat) :
    (candidatesOf text ((signatures.zipIdx start).flatMap fun entry =>
        entry.1.declarations (make entry.2))).find? (·.owner == own) =
      (signatures.zipIdx start).findSome? fun entry =>
        if make entry.2 = own then (entry.1.indexOf? text).map (⟨own, ·⟩) else none := by
  induction signatures generalizing start with
  | nil => rfl
  | cons signature rest ih =>
      rw [List.zipIdx_cons, List.flatMap_cons, candidatesOf_append, List.find?_append,
        Signature.find?_candidatesOf, ih, List.findSome?_cons]
      by_cases owned : make start = own
      · simp only [owned, if_true]
        cases signature.indexOf? text <;> rfl
      · simp only [owned, if_false, Option.none_or]

theorem findSome?_zipIdx {α β : Type} (value? : α → Option β) (entries : List α)
    (start key : Nat) :
    ((entries.zipIdx start).findSome? fun entry =>
        if entry.2 = key then value? entry.1 else none) =
      if start ≤ key then entries[key - start]?.bind value? else none := by
  induction entries generalizing start with
  | nil => simp
  | cons entry rest ih =>
      rw [List.zipIdx_cons, List.findSome?_cons, ih]
      by_cases here : start = key
      · subst here
        simp only [if_true, Nat.le_refl, Nat.sub_self, List.getElem?_cons_zero, Option.bind_some,
          if_neg (Nat.not_succ_le_self start)]
        cases value? entry <;> rfl
      · simp only [if_neg here]
        by_cases above : start ≤ key
        · have split_eq : key - start = (key - (start + 1)) + 1 := by omega
          rw [if_pos (by omega), if_pos above, split_eq, List.getElem?_cons_succ]
        · rw [if_neg (by omega), if_neg above]

namespace Vocabulary

theorem find?_candidatesOf (vocabulary : Vocabulary) (owner : Owner) (text : String) :
    (candidatesOf text vocabulary.declarations).find? (·.owner == owner) =
      (vocabulary.signature? owner).bind fun signature =>
        (signature.indexOf? text).map (⟨owner, ·⟩) := by
  unfold declarations
  rw [candidatesOf_append, candidatesOf_append, List.find?_append, List.find?_append,
    find?_candidatesOf_signatures, find?_candidatesOf_signatures]
  have keywords : candidatesOf text
      (Keyword.all.map fun keyword => .unique keyword.text (.keyword keyword)) = [] := rfl
  rw [keywords, List.find?_nil, Option.none_or]
  have absent (signatures : List Signature) :
      (signatures.zipIdx.findSome? fun _ => (none : Option Candidate)) = none :=
    List.findSome?_eq_none_iff.2 fun _ _ => rfl
  have here (signatures : List Signature) (key : Nat) :=
    findSome?_zipIdx (fun signature => (signature.indexOf? text).map fun index =>
      (⟨owner, index⟩ : Candidate)) signatures 0 key
  cases owner with
  | input key =>
      simp only [Owner.input.injEq, reduceCtorEq, if_false, here, absent, Option.or_none]
      rfl
  | output key =>
      simp only [Owner.output.injEq, reduceCtorEq, if_false, here, absent, Option.none_or]
      rfl

theorem unique_mem_declarations_iff {vocabulary : Vocabulary} {text : String} {lexeme : Lexeme} :
    .unique text lexeme ∈ vocabulary.declarations ↔
      (∃ keyword : Keyword, text = keyword.text ∧ lexeme = .keyword keyword) ∨
        ∃ owner signature, vocabulary.signature? owner = some signature ∧
          text = signature.name ∧ lexeme = owner.lexeme := by
  have named (signature : Signature) (owner : Owner) :
      .unique text lexeme ∈ signature.declarations owner ↔
        text = signature.name ∧ lexeme = owner.lexeme := by
    simp [Signature.declarations]
  simp only [declarations, List.mem_append, List.mem_map, List.mem_flatMap, named,
    List.mem_zipIdx_iff_getElem?, Prod.exists]
  constructor
  · rintro (⟨keyword, _, same⟩ | ⟨signature, key, declared, same⟩ | ⟨signature, key, declared, same⟩)
    · cases same
      exact .inl ⟨keyword, rfl, rfl⟩
    · exact .inr ⟨.input key, signature, declared, same⟩
    · exact .inr ⟨.output key, signature, declared, same⟩
  · rintro (⟨keyword, rfl, rfl⟩ | ⟨owner, signature, declared, same⟩)
    · exact .inl ⟨keyword, Keyword.mem_all keyword, rfl⟩
    · cases owner with
      | input key => exact .inr (.inl ⟨signature, key, declared, same⟩)
      | output key => exact .inr (.inr ⟨signature, key, declared, same⟩)

theorem isPlain_of_mem_declarations {vocabulary : Vocabulary} {declaration : Declaration}
    (member : declaration ∈ vocabulary.declarations) : declaration.IsPlain := by
  cases declaration with
  | shared text candidate => trivial
  | unique text lexeme =>
      intro candidates
      rcases unique_mem_declarations_iff.1 member with ⟨keyword, _, rfl⟩ | ⟨owner, _, _, _, rfl⟩
      · exact Lexeme.noConfusion
      · cases owner <;> exact Lexeme.noConfusion

variable {vocabulary : Vocabulary} {lexicon : Lexicon}

/-- The lexicon of a vocabulary records the declarations of the vocabulary. -/
theorem records_of_lexicon (built : vocabulary.lexicon = .ok lexicon) :
    lexicon.Records vocabulary.declarations :=
  Lexicon.Records.nil.append (fun _ member => isPlain_of_mem_declarations member) built

theorem find?_keyword (built : vocabulary.lexicon = .ok lexicon) (keyword : Keyword) :
    lexicon.find? keyword.text = some (.keyword keyword) :=
  (records_of_lexicon built).unique (unique_mem_declarations_iff.2 (.inl ⟨keyword, rfl, rfl⟩))

theorem find?_name (built : vocabulary.lexicon = .ok lexicon) {owner : Owner}
    {signature : Signature} (declared : vocabulary.signature? owner = some signature) :
    lexicon.find? signature.name = some owner.lexeme :=
  (records_of_lexicon built).unique
    (unique_mem_declarations_iff.2 (.inr ⟨owner, signature, declared, rfl, rfl⟩))

/-- Only the text of a keyword is read as that keyword. -/
theorem find?_eq_keyword_iff (built : vocabulary.lexicon = .ok lexicon) {text : String}
    {keyword : Keyword} : lexicon.find? text = some (.keyword keyword) ↔ text = keyword.text := by
  constructor
  · intro found
    rcases (records_of_lexicon built).declared found with member | ⟨_, same⟩
    · rcases unique_mem_declarations_iff.1 member with ⟨own, rfl, same⟩ | ⟨owner, _, _, _, same⟩
      · rw [Lexeme.keyword.inj same]
      · cases owner <;> cases same
    · cases same
  · rintro rfl
    exact find?_keyword built keyword

/-- Only the name of a variable is read as that variable. -/
theorem find?_eq_owner_iff (built : vocabulary.lexicon = .ok lexicon) {text : String}
    {owner : Owner} :
    lexicon.find? text = some owner.lexeme ↔
      ∃ signature, vocabulary.signature? owner = some signature ∧ text = signature.name := by
  constructor
  · intro found
    rcases (records_of_lexicon built).declared found with member | ⟨_, same⟩
    · rcases unique_mem_declarations_iff.1 member with
        ⟨keyword, _, same⟩ | ⟨own, signature, declared, named, same⟩
      · cases owner <;> cases same
      · have own_eq : owner = own := by
          cases owner <;> cases own <;> cases same <;> rfl
        exact ⟨signature, own_eq ▸ declared, named⟩
    · cases owner <;> cases same
  · rintro ⟨signature, declared, rfl⟩
    exact find?_name built declared

/-- The name of a value is resolved to the first value of the variable with that name. -/
theorem resolve?_eq_indexOf? (built : vocabulary.lexicon = .ok lexicon) {owner : Owner}
    {signature : Signature} (declared : vocabulary.signature? owner = some signature)
    (text : String) :
    (lexicon.find? text).bind (·.resolve? owner) = signature.indexOf? text := by
  have records := records_of_lexicon built
  have candidates := vocabulary.find?_candidatesOf owner text
  rw [declared, Option.bind_some] at candidates
  by_cases nonempty : candidatesOf text vocabulary.declarations = []
  · rw [nonempty, List.find?_nil, eq_comm, Option.map_eq_none_iff] at candidates
    rw [candidates]
    cases found : lexicon.find? text with
    | none => rfl
    | some lexeme =>
        rcases records.declared found with member | ⟨some, _⟩
        · have plain := isPlain_of_mem_declarations member
          cases lexeme with
          | term candidates => exact (plain candidates rfl).elim
          | _ => rfl
        · exact absurd nonempty some
  · rw [records.shared nonempty, Option.bind_some, Lexeme.resolve?, candidates, Option.map_map]
    cases signature.indexOf? text <;> rfl

theorem find?_value (built : vocabulary.lexicon = .ok lexicon) {owner : Owner}
    {signature : Signature} (declared : vocabulary.signature? owner = some signature)
    {value : String} {index : Nat} (named : signature.indexOf? value = some index) :
    ∃ lexeme, lexicon.find? value = some lexeme := by
  have resolved := resolve?_eq_indexOf? built declared value
  rw [named, Option.bind_eq_some_iff] at resolved
  exact ⟨_, resolved.choose_spec.1⟩

theorem name_ne_keyword (built : vocabulary.lexicon = .ok lexicon) {owner : Owner}
    {signature : Signature} (declared : vocabulary.signature? owner = some signature)
    (keyword : Keyword) : signature.name ≠ keyword.text := by
  intro same
  have found := find?_name built declared
  rw [same, find?_keyword built keyword] at found
  cases owner <;> cases found

theorem value_ne_keyword (built : vocabulary.lexicon = .ok lexicon) {owner : Owner}
    {signature : Signature} (declared : vocabulary.signature? owner = some signature)
    {value : String} {index : Nat} (named : signature.indexOf? value = some index)
    (keyword : Keyword) : value ≠ keyword.text := by
  rintro rfl
  rw [← resolve?_eq_indexOf? built declared, find?_keyword built keyword] at named
  cases named

end Vocabulary

/-! ## Words of a text -/

def Lexicon.Describes (lexicon : Lexicon) (words : List Word) : Prop :=
  ∀ word ∈ words, lexicon.find? word.token = some word.lexeme

theorem Lexicon.Describes.head {lexicon : Lexicon} {word : Word} {rest : List Word}
    (known : lexicon.Describes (word :: rest)) : lexicon.find? word.token = some word.lexeme :=
  known word List.mem_cons_self

theorem Lexicon.Describes.tail {lexicon : Lexicon} {word : Word} {rest : List Word}
    (known : lexicon.Describes (word :: rest)) : lexicon.Describes rest :=
  fun other member => known other (List.mem_cons_of_mem _ member)

theorem Lexicon.Describes.drop_take {lexicon : Lexicon} {words : List Word}
    (known : lexicon.Describes words) (start stop : Nat) :
    lexicon.Describes ((words.take stop).drop start) :=
  fun word member => known word (List.mem_of_mem_take (List.mem_of_mem_drop member))

/-- A text has words if all its tokens have a meaning; the words are those tokens. -/
theorem Lexicon.words_eq_ok_iff {lexicon : Lexicon} {tokens : List String} {words : List Word} :
    lexicon.words tokens = .ok words ↔ words.map (·.token) = tokens ∧ lexicon.Describes words := by
  unfold Describes
  induction tokens generalizing words with
  | nil =>
      constructor
      · intro read
        cases read
        exact ⟨rfl, fun _ member => nomatch member⟩
      · rintro ⟨same, _⟩
        rw [List.map_eq_nil_iff.1 same]
        rfl
  | cons token rest ih =>
      rw [Lexicon.words]
      constructor
      · intro read
        cases known : lexicon.find? token with
        | none => simp [known] at read
        | some lexeme =>
            cases later : lexicon.words rest with
            | error cause => simp [known, later, Except.map] at read
            | ok others =>
                simp only [known, later, Except.map, Except.ok.injEq] at read
                obtain ⟨same, described⟩ := ih.1 later
                subst read
                refine ⟨by rw [List.map_cons, same], fun word member => ?_⟩
                rcases List.mem_cons.1 member with rfl | member
                · exact known
                · exact described word member
      · rintro ⟨same, described⟩
        cases words with
        | nil => cases same
        | cons word others =>
            obtain ⟨rfl, rest_eq⟩ := List.cons.inj same
            have later := ih.2
              ⟨rest_eq, fun word member => described word (List.mem_cons_of_mem _ member)⟩
            simp only [described word List.mem_cons_self, later, Except.map]

/-- Tokens that have meanings are the tokens of words. -/
theorem Lexicon.exists_describes {lexicon : Lexicon} {tokens : List String}
    (known : ∀ token ∈ tokens, ∃ lexeme, lexicon.find? token = some lexeme) :
    ∃ words : List Word, words.map (·.token) = tokens ∧ lexicon.Describes words := by
  induction tokens with
  | nil => exact ⟨[], rfl, fun _ member => nomatch member⟩
  | cons token rest ih =>
      obtain ⟨lexeme, found⟩ := known token List.mem_cons_self
      obtain ⟨words, rfl, described⟩ :=
        ih fun other member => known other (List.mem_cons_of_mem _ member)
      refine ⟨⟨token, lexeme⟩ :: words, rfl, fun word member => ?_⟩
      rcases List.mem_cons.1 member with rfl | later
      · exact found
      · exact described word later

section Words

variable {vocabulary : Vocabulary} {lexicon : Lexicon} {word : Word}

theorem Word.isKeyword_iff (built : vocabulary.lexicon = .ok lexicon)
    (known : lexicon.find? word.token = some word.lexeme) {keyword : Keyword} :
    word.isKeyword keyword = true ↔ word.token = keyword.text := by
  rw [← Vocabulary.find?_eq_keyword_iff built, known, Option.some.injEq]
  exact beq_iff_eq

/-- A word is resolved within a variable exactly if it names one of its values. -/
theorem Word.resolve_eq_ok_iff (built : vocabulary.lexicon = .ok lexicon)
    (known : lexicon.find? word.token = some word.lexeme) {owner : Owner} {signature : Signature}
    (declared : vocabulary.signature? owner = some signature) {position index : Nat}
    {ownerName : String} :
    word.resolve position owner ownerName = .ok index ↔
      signature.indexOf? word.token = some index := by
  have resolved := Vocabulary.resolve?_eq_indexOf? built declared word.token
  rw [known, Option.bind_some] at resolved
  rw [← resolved]
  unfold Word.resolve
  cases shape : word.lexeme with
  | term candidates =>
      cases (Lexeme.term candidates).resolve? owner <;> simp
  | _ => simp [Lexeme.resolve?]

end Words

end FuzzyControl
