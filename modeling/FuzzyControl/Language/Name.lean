import FuzzyControl.Error
import FuzzyControl.Text.Token

/-!
# Names

A name of a variable or of one of its values is one token that is no keyword, so
that every name can be used in a rule.
-/

namespace FuzzyControl

/-- Whether a text may be the name of a variable or of a value. -/
def isName (text : String) : Bool :=
  !text.toList.isEmpty && !text.toList.any isDelimiter && (Keyword.ofText? text).isNone

def checkName (text : String) : Except LanguageError String :=
  if isName text then .ok text else .error (.invalidName text)

end FuzzyControl
