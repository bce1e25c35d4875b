import Premise.Expr.Operator
import Premise.Rule.Kind
import Premise.Shape
import Premise.Text.Blank

/-!
What can go wrong while expressions and constructs are evaluated. Values appear by the names of
their shapes.
-/

namespace Premise

inductive EvalError where
  | arithmeticOperands (op : Arithmetic) (left right : String)
  | divisionByZero
  | moduloByZero
  | negationOperand (found : String)
  | incomparable (left : String) (op : Comparison) (right : String)
  | elementOfText (found : String)
  | collectionOperand (found : String)
  | setOperands (op : SetOperator) (left right : String)
  | pathOperands (found : List String)
  | pathArguments (given : Nat)
  | unknownFunction (name : String)
  | tooManyArguments (kind : RuleKind) (name : String) (parameters given : Nat)
  | argumentShape (parameter name : String) (expected : Shape) (found : String)
  | unknownRule (name : String)
  | tooDeep (limit : Nat)
  | unknownCollection (target construct : String)
  | noCollection (target construct found : String)
  | noNumbers (function target : String)
  | assertionFailed (message : String)
  /-- what a constraint or the handler of a domain has to say -/
  | reported (message : String)
  deriving Repr, DecidableEq

namespace EvalError

def message : EvalError → String
  | .arithmeticOperands op left right => s!"Cannot apply {op.name} to {left} and {right}"
  | .divisionByZero => "Division by zero"
  | .moduloByZero => "Modulo by zero"
  | .negationOperand found => s!"Cannot negate {found}"
  | .incomparable left op right => s!"Cannot compare {left} {op.symbol} {right}"
  | .elementOfText found => s!"Cannot test {found} for membership in a string"
  | .collectionOperand found => s!"'in' expects a set, list or string, got {found}"
  | .setOperands op left right => s!"'{op.symbol}' needs two sets, got {left} and {right}"
  | .pathOperands found =>
    "path() expects (graph, string, string), got (" ++ Text.joined ", " found ++ ")"
  | .pathArguments given => s!"path() expects 3 arguments, got {given}"
  | .unknownFunction name => s!"Unknown function '{name}'"
  | .tooManyArguments kind name parameters given =>
    s!"{kind.heading} '{name}' takes {parameters} argument(s) but {given} were given"
  | .argumentShape parameter name expected found =>
    s!"Argument '{parameter}' of '{name}' expects {expected.name}, got {found}"
  | .unknownRule name => s!"Unknown rule '{name}' in chain"
  | .tooDeep limit => s!"Evaluation depth exceeds the maximum of {limit}"
  | .unknownCollection target construct => s!"Unknown collection '{target}' in {construct}"
  | .noCollection target construct found =>
    s!"Target '{target}' of {construct} is a {found}, not a collection"
  | .noNumbers function target => s!"Cannot {function} '{target}': it contains no valid numbers"
  | .assertionFailed message => s!"Assertion failed: {message}"
  | .reported message => message

def advice : EvalError → Option String
  | .arithmeticOperands .. => some "Arithmetic operators only accept numbers"
  | .unknownFunction _ => some "Declare it as a <function> or <rule> in a rules section"
  | .tooDeep _ => some "Check for rules that evaluate themselves through eval()"
  | _ => none

end EvalError

end Premise
