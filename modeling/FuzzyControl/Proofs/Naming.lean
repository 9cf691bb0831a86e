import FuzzyControl.Language.Name
import FuzzyControl.Proofs.Outcome
import FuzzyControl.Variable.Output

/-!
# Names of checked variables

Variables that are put together by the checking functions have proper names, and no two
values of one variable share a name.
-/

namespace FuzzyControl

structure Signature.Named (signature : Signature) : Prop where
  name : isName signature.name = true
  values : ∀ value ∈ signature.values, isName value = true
  distinct : signature.values.Nodup

theorem checkName_eq_ok_iff {text name : String} :
    checkName text = .ok name ↔ isName text = true ∧ text = name := by
  unfold checkName
  split
  · rename_i named
    simp [named]
  · rename_i unnamed
    simp [unnamed]

theorem ofLanguage_checkName_eq_ok_iff {α : Type} {text name : String} :
    (Error.ofLanguage (checkName text) : Except (Error α) String) = .ok name ↔
      isName text = true ∧ text = name := by
  rw [Error.ofLanguage, Outcome.mapError_eq_ok_iff, checkName_eq_ok_iff]

theorem getElem?_of_findIdx? {names : List String} {name : String} {position : Nat}
    (found : names.findIdx? (· == name) = some position) : names[position]? = some name := by
  obtain ⟨less, same, _⟩ := List.findIdx?_eq_some_iff_getElem.1 found
  rw [List.getElem?_eq_getElem less, eq_of_beq same]

/-- Among distinct names the search for a name undoes the look-up of names by position. -/
theorem findIdx?_eq_some_iff {names : List String} (distinct : names.Nodup) {name : String}
    {position : Nat} :
    names.findIdx? (· == name) = some position ↔ names[position]? = some name := by
  refine ⟨getElem?_of_findIdx?, fun here => ?_⟩
  obtain ⟨less, same⟩ := List.getElem?_eq_some_iff.1 here
  refine List.findIdx?_eq_some_iff_getElem.2 ⟨less, beq_iff_eq.2 same, fun earlier before => ?_⟩
  have differs := List.pairwise_iff_getElem.1 distinct earlier position
    (Nat.lt_trans before less) less before
  rw [same] at differs
  exact fun found => differs (eq_of_beq found)

namespace Signature

theorem Named.empty {name : String} (named : isName name = true) : Named ⟨name, []⟩ :=
  ⟨named, fun _ member => (nomatch member), List.Pairwise.nil⟩

/-- A further value needs a proper name that no value has yet. -/
theorem Named.append {signature : Signature} (named : signature.Named) {value : String}
    (proper : isName value = true) (fresh : signature.indexOf? value = none) :
    Named ⟨signature.name, signature.values ++ [value]⟩ where
  name := named.name
  values other member := by
    rcases List.mem_append.1 member with earlier | last
    · exact named.values other earlier
    · rw [List.mem_singleton.1 last]
      exact proper
  distinct := by
    have unused : value ∉ signature.values := by
      intro member
      have found := List.findIdx?_eq_none_iff.1 fresh value member
      rw [beq_self_eq_true] at found
      cases found
    refine List.nodup_append.2 ⟨named.distinct, List.pairwise_singleton _ value, ?_⟩
    intro other member last lastMember same
    rw [List.mem_singleton.1 lastMember] at same
    exact unused (same ▸ member)

/-- Among distinct names each one stands for its own index. -/
theorem Named.indexOf?_eq_some_iff {signature : Signature} (named : signature.Named)
    {value : String} {index : Nat} :
    signature.indexOf? value = some index ↔ signature.values[index]? = some value :=
  findIdx?_eq_some_iff named.distinct

end Signature

/-! ## Linguistic variables -/

namespace LinguisticVariable

variable {α : Type} [Scalar α]

/-- The variable is declared and then adjusted by the checking functions. -/
inductive Built : LinguisticVariable α → Prop where
  | declare {name : String} {low high : α} {original : LinguisticVariable α}
      (declared : LinguisticVariable.declare name low high = .ok original) : Built original
  | adjust {original changed : LinguisticVariable α} {command : Adjustment α}
      (built : Built original) (adjusted : original.adjust command = .ok changed) : Built changed

theorem declare_signature {name : String} {low high : α} {original : LinguisticVariable α}
    (declared : declare name low high = .ok original) :
    isName name = true ∧ original.signature = ⟨name, []⟩ := by
  obtain ⟨own, checked, ordering⟩ := Outcome.bind_eq_ok_iff.1 declared
  obtain ⟨named, rfl⟩ := ofLanguage_checkName_eq_ok_iff.1 checked
  split at ordering
  · cases ordering
    exact ⟨named, rfl⟩
  · cases ordering

theorem termIndex?_eq_indexOf? (self : LinguisticVariable α) (name : String) :
    self.termIndex? name = self.signature.indexOf? name := by
  rw [termIndex?, Signature.indexOf?, signature, List.findIdx?_map]
  rfl

theorem addTerm_signature {original changed : LinguisticVariable α} {name : String}
    {set : FuzzySet α} (added : original.addTerm name set = .ok changed) :
    isName name = true ∧ original.signature.indexOf? name = none ∧
      changed.signature = ⟨original.signature.name, original.signature.values ++ [name]⟩ := by
  obtain ⟨own, checked, inserting⟩ := Outcome.bind_eq_ok_iff.1 added
  obtain ⟨named, rfl⟩ := ofLanguage_checkName_eq_ok_iff.1 checked
  split at inserting
  · cases inserting
  · rename_i fresh
    cases inserting
    rw [termIndex?_eq_indexOf?, Option.not_isSome_iff_eq_none] at fresh
    exact ⟨named, fresh, by simp [signature]⟩

/-- New fuzzy sets leave all names as they are. -/
theorem recalibrate_signature (self : LinguisticVariable α) (index : Nat) (set : FuzzySet α) :
    (self.recalibrate index set).signature = self.signature := by
  have names_eq : (self.terms.modify index fun term => { term with set := set }).map (·.name) =
      self.terms.map (·.name) := by
    refine List.ext_getElem? fun key => ?_
    rw [List.getElem?_map, List.getElem?_map, List.getElem?_modify]
    cases self.terms[key]? with
    | none => rfl
    | some term =>
        by_cases same : index = key
        · simp [same]
        · simp [same]
  exact congrArg (Signature.mk self.name) names_eq

theorem Built.named {original : LinguisticVariable α} (built : original.Built) :
    original.signature.Named := by
  induction built with
  | declare declared =>
      obtain ⟨named, signature_eq⟩ := declare_signature declared
      rw [signature_eq]
      exact .empty named
  | @adjust original changed command built adjusted ih =>
      cases command with
      | addTerm name set =>
          obtain ⟨proper, fresh, signature_eq⟩ := addTerm_signature adjusted
          rw [signature_eq]
          exact ih.append proper fresh
      | recalibrate index set =>
          cases adjusted
          rw [recalibrate_signature]
          exact ih

/-- Terms are found by their names exactly where they are. -/
def FindsTerms (self : LinguisticVariable α) : Prop :=
  ∀ (name : String) (index : Nat),
    self.termIndex? name = some index ↔ self.terms[index]?.map (·.name) = some name

theorem Built.findsTerms {self : LinguisticVariable α} (built : self.Built) : self.FindsTerms := by
  intro name index
  rw [termIndex?_eq_indexOf?, built.named.indexOf?_eq_some_iff, signature, List.getElem?_map]

end LinguisticVariable

/-! ## Affine variables -/

def AffineFunction.Built {α : Type} (function : AffineFunction α) : Prop :=
  ∃ name coefficients constant, AffineFunction.declare name coefficients constant = .ok function

theorem AffineFunction.Built.isName {α : Type} {function : AffineFunction α}
    (built : function.Built) : isName function.name = true := by
  obtain ⟨name, coefficients, constant, declared⟩ := built
  obtain ⟨own, checked, same⟩ := Outcome.bind_eq_ok_iff.1 declared
  obtain ⟨named, rfl⟩ := ofLanguage_checkName_eq_ok_iff.1 checked
  cases same
  exact named

namespace AffineVariable

variable {α : Type}

inductive Built : AffineVariable α → Prop where
  | declare {name : String} {original : AffineVariable α}
      (declared : AffineVariable.declare name = .ok original) : Built original
  | addFunction {original changed : AffineVariable α} {function : AffineFunction α}
      (built : Built original) (proper : function.Built)
      (added : original.addFunction function = .ok changed) : Built changed

theorem declare_signature {name : String} {original : AffineVariable α}
    (declared : declare name = .ok original) :
    isName name = true ∧ original.signature = ⟨name, []⟩ := by
  obtain ⟨own, checked, same⟩ := Outcome.bind_eq_ok_iff.1 declared
  obtain ⟨named, rfl⟩ := ofLanguage_checkName_eq_ok_iff.1 checked
  cases same
  exact ⟨named, rfl⟩

theorem functionIndex?_eq_indexOf? (self : AffineVariable α) (name : String) :
    self.functionIndex? name = self.signature.indexOf? name := by
  rw [functionIndex?, Signature.indexOf?, signature, List.findIdx?_map]
  rfl

theorem addFunction_signature {original changed : AffineVariable α}
    {function : AffineFunction α} (added : original.addFunction function = .ok changed) :
    original.signature.indexOf? function.name = none ∧
      changed.signature =
        ⟨original.signature.name, original.signature.values ++ [function.name]⟩ := by
  unfold addFunction at added
  split at added
  · cases added
  · rename_i fresh
    cases added
    rw [functionIndex?_eq_indexOf?, Option.not_isSome_iff_eq_none] at fresh
    exact ⟨fresh, by simp [signature]⟩

theorem Built.named {original : AffineVariable α} (built : original.Built) :
    original.signature.Named := by
  induction built with
  | declare declared =>
      obtain ⟨named, signature_eq⟩ := declare_signature declared
      rw [signature_eq]
      exact .empty named
  | addFunction built proper added ih =>
      obtain ⟨fresh, signature_eq⟩ := addFunction_signature added
      rw [signature_eq]
      exact ih.append proper.isName fresh

def FindsFunctions (self : AffineVariable α) : Prop :=
  ∀ (name : String) (index : Nat),
    self.functionIndex? name = some index ↔ self.functions[index]?.map (·.name) = some name

theorem Built.findsFunctions {self : AffineVariable α} (built : self.Built) :
    self.FindsFunctions := by
  intro name index
  rw [functionIndex?_eq_indexOf?, built.named.indexOf?_eq_some_iff, signature, List.getElem?_map]

end AffineVariable

/-! ## Checked outputs -/

/-- Outputs whose checking functions give them proper names. -/
class CheckedOutput (ω : Type) [OutputVariable ω] where
  Built : ω → Prop
  named : ∀ {output : ω}, Built output → (OutputVariable.signature output).Named

instance {α : Type} [Scalar α] : CheckedOutput (LinguisticVariable α) where
  Built := LinguisticVariable.Built
  named := LinguisticVariable.Built.named

instance {α : Type} : CheckedOutput (AffineVariable α) where
  Built := AffineVariable.Built
  named := AffineVariable.Built.named

end FuzzyControl
