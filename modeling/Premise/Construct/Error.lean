import Premise.Symbol.Error

/-!
What can be wrong with an element that is to be evaluated.
-/

namespace Premise

inductive ConstructError where
  | chainWithoutTarget
  | queryWithoutExpression
  | quantifierWithoutTarget (tag : String)
  | quantifierWithoutCondition (tag : String)
  | assertionWithoutExpression
  | malformedOverride (written : String)
  | override (name : String) (error : OverrideError)
  | unknownAggregate (name : String)
  | aggregateWithoutTarget
  | unknownTag (tag : String)
  deriving Repr, DecidableEq

namespace ConstructError

def message : ConstructError → String
  | .chainWithoutTarget => "Query chain requires a 'target' attribute"
  | .queryWithoutExpression => "Query has no expression"
  | .quantifierWithoutTarget tag => s!"<{tag}> requires a 'target' attribute"
  | .quantifierWithoutCondition tag => s!"<{tag}> requires a condition"
  | .assertionWithoutExpression => "Assertion has no expression"
  | .malformedOverride written => s!"Malformed override '{written}'"
  | .override name error => s!"Override '{name}': {error.message}"
  | .unknownAggregate name => s!"Unknown aggregate function '{name}'"
  | .aggregateWithoutTarget => "Aggregate requires a 'target' attribute"
  | .unknownTag tag => s!"Unknown domain tag '{tag}'"

def advice : ConstructError → Option String
  | .chainWithoutTarget => some "Name the symbol the chain starts from with target=\"...\""
  | .queryWithoutExpression =>
    some "Put the expression in the element text or an 'expr' attribute"
  | .quantifierWithoutCondition _ =>
    some "Put the condition in the element text or a 'condition' attribute"
  | .malformedOverride _ => some "Write overrides as if=\"name=value,...\""
  | .unknownAggregate _ => some "Use one of: count, sum, min, max, avg"
  | .unknownTag _ => some "Register a handler for this tag with the engine"
  | .quantifierWithoutTarget _ | .assertionWithoutExpression | .override ..
  | .aggregateWithoutTarget => none

end ConstructError

end Premise
