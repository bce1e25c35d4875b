import Premise.Expr.Error
import Premise.Rule.Kind

/-!
What can be wrong with the declaration of a rule.
-/

namespace Premise

inductive RuleError where
  | unknownKind (tag : String)
  | invalidShape (written parameter : String) (kind : RuleKind) (name : String)
  | duplicateParameter (parameter : String) (kind : RuleKind) (name : String)
  | missingBody (kind : RuleKind) (name : String)
  | malformedBody (kind : RuleKind) (name : String) (error : ParseError)
  | duplicate (name : String)
  deriving Repr, DecidableEq

namespace RuleError

def message : RuleError → String
  | .unknownKind tag => s!"Unknown rule type '{tag}'"
  | .invalidShape written parameter kind name =>
    s!"Invalid type '{written}' for parameter '{parameter}' of {kind.tag} '{name}'"
  | .duplicateParameter parameter kind name =>
    s!"Duplicate parameter '{parameter}' in {kind.tag} '{name}'"
  | .missingBody kind name => s!"Failed to compile {kind.tag} '{name}': missing body"
  | .malformedBody kind name error => s!"Failed to compile {kind.tag} '{name}': {error.message}"
  | .duplicate name => s!"Duplicate rule '{name}'"

def advice : RuleError → Option String
  | .unknownKind _ => some "Use one of: rule, function, constraint"
  | .invalidShape .. | .duplicateParameter .. => none
  | .missingBody .. => some "Put the expression in the element text or a 'body' attribute"
  | .malformedBody _ _ error => error.advice
  | .duplicate _ => some "Rename one of the declarations; the first one is kept"

/-- Whether the body is at fault, and not the declaration around it. -/
def isInBody : RuleError → Bool
  | .missingBody .. | .malformedBody .. => true
  | _ => false

end RuleError

end Premise
