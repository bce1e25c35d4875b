import Premise.Domain
import Premise.Eval
import Premise.Limits

/-!
Programs: all that the constructs of a document are evaluated against.
-/

namespace Premise

structure Program where
  symbols : SymbolTable
  rules : Rulebook
  domains : Domains
  limits : Limits

namespace Program

def evaluate (p : Program) : Evaluator := Expr.evaluate p.rules p.limits.evaluation

def chain (p : Program) (scope : Scope) (start : Value) (names : List String) : Run Value :=
  p.rules.chain p.evaluate scope start names

end Program

end Premise
