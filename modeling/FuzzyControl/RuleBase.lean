import FuzzyControl.Condition.Degree
import FuzzyControl.Language.Reading
import FuzzyControl.Variable.Output

/-!
# Rule bases

A rule base holds the declared variables, the rules over them and the meaning of
the connectives.  A variable is referred to by its key, its position among the
inputs or among the outputs.
-/

namespace FuzzyControl

structure RuleBase (α ω : Type) [Scalar α] where
  norms : Norms
  inputs : List (LinguisticVariable α)
  outputs : List ω
  rules : List (Rule α)

namespace RuleBase

variable {α ω : Type} [Scalar α]

def empty (norms : Norms) : RuleBase α ω :=
  ⟨norms, [], [], []⟩

def setConjunction (self : RuleBase α ω) (conjunction : Conjunction) : RuleBase α ω :=
  { self with norms := { self.norms with conjunction := conjunction } }

def setDisjunction (self : RuleBase α ω) (disjunction : Disjunction) : RuleBase α ω :=
  { self with norms := { self.norms with disjunction := disjunction } }

def clearRules (self : RuleBase α ω) : RuleBase α ω :=
  { self with rules := [] }

def push (self : RuleBase α ω) (rule : Rule α) : RuleBase α ω :=
  { self with rules := self.rules ++ [rule] }

def inputNamed? (self : RuleBase α ω) (name : String) : Option Nat :=
  self.inputs.findIdx? (·.name == name)

variable [OutputVariable ω]

def outputNamed? (self : RuleBase α ω) (name : String) : Option Nat :=
  self.outputs.findIdx? (OutputVariable.name · == name)

/-- What rule texts may mention. -/
def vocabulary (self : RuleBase α ω) : Vocabulary :=
  ⟨self.inputs.map (·.signature), self.outputs.map OutputVariable.signature⟩

def checkUnused (self : RuleBase α ω) (name : String) : Except (Error α) Unit :=
  if (self.inputNamed? name).isSome || (self.outputNamed? name).isSome then
    .error (.language (.nameConflict name))
  else .ok ()

/-- Declares an input; its key is the number of inputs before it. -/
def addInput (self : RuleBase α ω) (input : LinguisticVariable α) :
    Except (Error α) (RuleBase α ω) := do
  self.checkUnused input.name
  .ok { self with inputs := self.inputs ++ [input] }

/-- Declares an output, which may depend on declared inputs only. -/
def addOutput (self : RuleBase α ω) (output : ω) : Except (Error α) (RuleBase α ω) := do
  self.checkUnused (OutputVariable.name output)
  if (OutputVariable.referenced output).all (· < self.inputs.length) then
    .ok { self with outputs := self.outputs ++ [output] }
  else .error .unknownVariable

/-- Reads a rule text into a rule of full weight. -/
def parse (self : RuleBase α ω) (text : String) : Except (Error α) (Rule α) := do
  let statement ← Error.ofLanguage (self.vocabulary.parse text)
  .ok (.ofStatement statement)

def addRuleText (self : RuleBase α ω) (text : String) : Except (Error α) (RuleBase α ω) := do
  let rule ← self.parse text
  .ok (self.push rule)

def checkProposition (self : RuleBase α ω) (proposition : Proposition) :
    Except (Error α) Unit :=
  match self.inputs[proposition.input]? with
  | none => .error .unknownVariable
  | some input =>
      if proposition.term < input.terms.length then .ok ()
      else .error (.unknownTerm input.name proposition.term)

def checkPropositions (self : RuleBase α ω) : List Proposition → Except (Error α) Unit
  | [] => .ok ()
  | proposition :: rest => do
      self.checkProposition proposition
      self.checkPropositions rest

def checkConclusion (self : RuleBase α ω) (conclusion : Conclusion) : Except (Error α) Unit :=
  match self.outputs[conclusion.output]? with
  | none => .error .unknownVariable
  | some output =>
      if conclusion.value < OutputVariable.valueCount output then .ok ()
      else .error (.unknownTerm (OutputVariable.name output) conclusion.value)

/-- Checks a statement: first its groups, then its propositions in order, then its conclusion. -/
def checkStatement (self : RuleBase α ω) (statement : Statement) : Except (Error α) Unit :=
  if statement.condition.hasEmptyGroup then .error .emptyConditions
  else do
    self.checkPropositions statement.condition.propositions
    self.checkConclusion statement.conclusion

def addRule (self : RuleBase α ω) (rule : Rule α) : Except (Error α) (RuleBase α ω) := do
  self.checkStatement rule.toStatement
  .ok (self.push rule)

end RuleBase

end FuzzyControl
