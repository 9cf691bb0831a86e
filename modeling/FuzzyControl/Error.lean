import FuzzyControl.Language.Keyword

/-!
# Errors

The reasons for which a rule text, a declaration, an input or a selector is
refused, the kind of each reason, and its message.  Numbers stay values here; the
caller of `Error.message` says how they are written.
-/

namespace FuzzyControl

/-- What is wrong with the tokens after `then`. -/
inductive ConclusionFault where
  /-- Not the three tokens of `variable is term`. -/
  | length (count : Nat)
  | inputVariable (token : String)
  | notOutputVariable (token : String)
deriving DecidableEq, Repr

/-- Steps of rule reading that cannot fail on the tables they are given. -/
inductive Defect where
  | missingVariable
  | itemOutOfRange
  | missingPartner
  /-- A closing bracket stands where an operand is expected. -/
  | strayClosing
  | missingConnective
  /-- A chain of operands did not advance. -/
  | stalled
  /-- Groups are nested deeper than brackets can be. -/
  | nestingBudget
deriving DecidableEq, Repr

inductive LanguageError where
  | missingKeyword (keyword : Keyword) (position : Nat)
  | unbalancedBrackets (position : Nat)
  | nestingTooDeep (position limit : Nat)
  | inconsistentOperator (position : Nat)
  | invalidConclusion (fault : ConclusionFault)
  | incompleteCondition (position : Nat)
  | unexpectedToken (token : String) (position : Nat)
  | unknownIdentifier (token : String)
  | unresolvedTerm (term owner : String)
  | nameConflict (name : String)
  | invalidName (name : String)
  | duplicateTerm (owner term : String)
  | defect (site : Defect)
deriving DecidableEq, Repr

inductive ParameterFault (α : Type) where
  /-- Corners of a shape that do not ascend. -/
  | corners (values : List α)
  /-- A spread that is not positive. -/
  | spread (value : α)
  /-- A constant that is not a degree. -/
  | constant (value : α)
  /-- A point without an abscissa, or whose ordinate is not a degree. -/
  | point (abscissa ordinate : α)
  /-- A rule weight outside `[0, 1]`. -/
  | weight (value : α)
deriving DecidableEq, Repr

inductive Error (α : Type) where
  | language (cause : LanguageError)
  | unknownVariable
  | unknownTerm (owner : String) (index : Nat)
  | inputCount (expected actual : Nat)
  | missingInput (owner : String)
  | outOfRange (owner : String) (value low high : α)
  | invalidDomain (low high : α)
  | invalidParameter (fault : ParameterFault α)
  | noRules
  | emptyConditions
  | unsupportedMethod (kind name : String)
deriving DecidableEq, Repr

inductive ErrorKind where
  /-- Malformed rule text. -/
  | grammar
  /-- A name that does not resolve, or may not be used. -/
  | nameResolution
  /-- Input values, or parameters of a declaration. -/
  | domain
  /-- A selector that names no method. -/
  | configuration
  /-- A defect of the library itself. -/
  | internal
deriving DecidableEq, Repr

namespace ConclusionFault

def message : ConclusionFault → String
  | .length count => s!"expected `variable is term`, found {count} tokens"
  | .inputVariable token => s!"`{token}` is an input variable"
  | .notOutputVariable token => s!"expected an output variable, found `{token}`"

end ConclusionFault

namespace LanguageError

def kind : LanguageError → ErrorKind
  | .missingKeyword .. | .unbalancedBrackets .. | .nestingTooDeep .. | .inconsistentOperator ..
  | .invalidConclusion .. | .incompleteCondition .. | .unexpectedToken .. => .grammar
  | .unknownIdentifier .. | .unresolvedTerm .. | .nameConflict .. | .invalidName ..
  | .duplicateTerm .. => .nameResolution
  | .defect .. => .internal

/-- What a user is told; positions count tokens from zero. -/
def message : LanguageError → String
  | .missingKeyword keyword position =>
      s!"expected keyword `{keyword.text}` at token {position}"
  | .unbalancedBrackets position => s!"unbalanced brackets at token {position}"
  | .nestingTooDeep position limit =>
      s!"brackets nested deeper than {limit} levels at token {position}"
  | .inconsistentOperator position =>
      s!"`and` and `or` mixed at one nesting level at token {position}; group them with brackets"
  | .invalidConclusion fault => s!"invalid conclusion: {fault.message}"
  | .incompleteCondition position => s!"incomplete condition at token {position}"
  | .unexpectedToken token position => s!"unexpected token `{token}` at position {position}"
  | .unknownIdentifier token => s!"unknown identifier `{token}`"
  | .unresolvedTerm term owner => s!"term `{term}` does not belong to variable `{owner}`"
  | .nameConflict name => s!"name `{name}` is already registered"
  | .invalidName name => s!"`{name}` is not a valid variable or term name"
  | .duplicateTerm owner term => s!"variable `{owner}` already has a term named `{term}`"
  | .defect _ => "the rule reader is defective"

end LanguageError

namespace ParameterFault

def message {α : Type} (number : α → String) : ParameterFault α → String
  | .corners values => String.intercalate " <= " (values.map number) ++ " is not true"
  | .spread value => "sigma " ++ number value ++ " must be positive"
  | .constant value => "0 <= " ++ number value ++ " <= 1 is not true"
  | .point abscissa ordinate =>
      "invalid point (" ++ number abscissa ++ ", " ++ number ordinate ++ ")"
  | .weight value => "rule weight " ++ number value ++ " is outside [0, 1]"

end ParameterFault

namespace Error

variable {α : Type}

instance : Coe LanguageError (Error α) := ⟨.language⟩

def kind : Error α → ErrorKind
  | .language cause => cause.kind
  | .unknownVariable | .unknownTerm .. => .nameResolution
  | .inputCount .. | .missingInput .. | .outOfRange .. | .invalidDomain .. | .invalidParameter ..
  | .noRules | .emptyConditions => .domain
  | .unsupportedMethod .. => .configuration

def message (number : α → String) : Error α → String
  | .language cause => cause.message
  | .unknownVariable => "rule references a variable that is not part of this system"
  | .unknownTerm owner index => s!"variable `{owner}` has no term at index {index}"
  | .inputCount expected actual => s!"expected {expected} input values, got {actual}"
  | .missingInput owner => s!"no input value supplied for `{owner}`"
  | .outOfRange owner value low high =>
      s!"value {number value} for `{owner}` is outside [{number low}, {number high}]"
  | .invalidDomain low high =>
      s!"invalid domain: {number low} must be less than {number high}"
  | .invalidParameter fault => "invalid parameter: " ++ fault.message number
  | .noRules => "the system has no rules"
  | .emptyConditions => "condition group has no children"
  | .unsupportedMethod kind name => s!"unsupported {kind} method `{name}`"

def ofLanguage {β : Type} : Except LanguageError β → Except (Error α) β :=
  Except.mapError .language

end Error

end FuzzyControl
