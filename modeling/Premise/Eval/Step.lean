import Premise.Expr.Operator
import Premise.Value.Display

/-!
Steps of an evaluation, as a trace shows them: one line each.
-/

namespace Premise

inductive Step where
  /-- a name and what it stands for -/
  | binding (name : String) (v : Value)
  | between (left : Value) (symbol : String) (right result : Value)
  /-- a connective, whose right operand may not have been looked at -/
  | connective (left : Value) (op : Connective) (result : Value)
  | unary (symbol : String) (operand result : Value)
  | call (name : String) (arguments : List Value) (result : Value)
  /-- one rule of a chain, applied to the value so far -/
  | chain (rule : String) (current next : Value)
  | quantifier (tag target : String) (matched total : Nat)
  /-- a branch and the bindings it lays over its surroundings -/
  | branch (tag : String) (overrides : List (String × Value))
  deriving Inhabited

namespace Step

def line : Step → String
  | .binding name v => name ++ " = " ++ v.display
  | .between left symbol right result =>
    left.display ++ " " ++ symbol ++ " " ++ right.display ++ " = " ++ result.display
  | .connective left op result => left.display ++ " " ++ op.symbol ++ " ... = " ++ result.display
  | .unary symbol operand result => symbol ++ operand.display ++ " = " ++ result.display
  | .call name arguments result =>
    name ++ "(" ++ Text.joined ", " (arguments.map Value.display) ++ ") = " ++ result.display
  | .chain rule current next =>
    "chain " ++ rule ++ "(" ++ current.display ++ ") = " ++ next.display
  | .quantifier tag target matched total => s!"{tag} over {target}: {matched}/{total} matched"
  | .branch tag overrides =>
    tag ++ " " ++ Text.joined ", " (overrides.map fun o => o.1 ++ "=" ++ o.2.display)

end Step

end Premise
