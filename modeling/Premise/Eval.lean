import Premise.Eval.Run
import Premise.Name
import Premise.Rule
import Premise.Value.Arithmetic
import Premise.Value.Builtin
import Premise.Value.Comparison

/-!
Evaluating expressions.

Every expression is entered on a level of its own, below the level of the expression or call it
belongs to; rules that call themselves come to an end where no level is left. `evaluateAt` is
therefore a recursion on the levels that are left, and `evaluateNode` says what one node does with
the values of those below it.
-/

namespace Premise

/-- The fault of an expression that finds no level left. -/
def depthFault (limit : Nat) (line : Option Nat) : Fault :=
  (Fault.of (.evaluation (.tooDeep limit))).atLine line

abbrev Evaluator := Scope → Expr Mark → Run Value

namespace Rule

/-- What the parameters are bound to: arguments in order, and null where they run out. -/
def bindings (name : String) : List Parameter → List Value → Except EvalError (List (String × Value))
  | [], _ => .ok []
  | p :: ps, [] => do
    let rest ← bindings name ps []
    .ok ((p.name, .null) :: rest)
  | p :: ps, v :: vs =>
    if p.shape.accepts v then do
      let rest ← bindings name ps vs
      .ok ((p.name, v) :: rest)
    else .error (.argumentShape p.name name p.shape v.typeName)

/-- The scope of a call: the arguments laid over the scope that the rule keeps. -/
def callScope (r : Rule) (arguments : List Value) : Except EvalError Scope :=
  if arguments.length > r.parameters.length then
    .error (.tooManyArguments r.kind r.name r.parameters.length arguments.length)
  else (bindings r.name r.parameters arguments).map r.scope.overlay

/-- The scope of a rule in a chain: the value so far is the current item, and also the first
parameter if there is one. -/
def chainScope (r : Rule) (s : Scope) (current : Value) : Scope :=
  let s := s.bind Name.item current
  match r.parameters with
  | [] => s
  | p :: _ => s.bind p.name current

end Rule

namespace Rulebook

def call (rules : Rulebook) (evaluate : Evaluator) (name : String) (arguments : List Value) :
    Run Value :=
  match rules.get? name with
  | none => .wrong (.unknownFunction name)
  | some r => do
    let scope ← .ofExcept (r.callScope arguments)
    evaluate scope r.body

/-- Evaluates the rule that a text names, in the scope of the caller. Any other value stands for
itself. -/
def evalNamed (rules : Rulebook) (evaluate : Evaluator) (scope : Scope) : List Value → Run Value
  | [] => .value .null
  | .text name :: _ =>
    match rules.get? name with
    | some r => evaluate scope r.body
    | none => .value (.text name)
  | v :: _ => .value v

/-- Applies rules one after the other, each to the value of the one before. -/
def chain (rules : Rulebook) (evaluate : Evaluator) (scope : Scope) (current : Value) :
    List String → Run Value
  | [] => .value current
  | name :: names =>
    match rules.get? name with
    | none => .wrong (.unknownRule name)
    | some r => do
      let next ← evaluate (r.chainScope scope current) r.body
      Run.trace (.chain name current next)
      chain rules evaluate scope next names

end Rulebook

namespace Expr

def evaluateAll (evaluate : Evaluator) (scope : Scope) : List (Expr Mark) → Run (List Value)
  | [] => .value []
  | e :: es => do
    let v ← evaluate scope e
    let vs ← evaluateAll evaluate scope es
    .value (v :: vs)

/-- The value of a connective; the right operand is evaluated only where it matters. -/
def connect (op : Connective) (left : Value) (right : Unit → Run Value) : Run Value :=
  match op with
  | .and =>
    if left.isTruthy then do
      let r ← right ()
      .value (.boolean r.isTruthy)
    else .value (.boolean false)
  | .or =>
    if left.isTruthy then .value (.boolean true)
    else do
      let r ← right ()
      .value (.boolean r.isTruthy)
  | .implies => if left.isTruthy then right () else .value (.boolean true)
  | .iff => do
    let r ← right ()
    .value (.boolean (left.isTruthy == r.isTruthy))

def apply (rules : Rulebook) (evaluate : Evaluator) (scope : Scope) (line : Option Nat)
    (name : String) (arguments : List Value) : Run Value :=
  if name = "error" then .value (Value.errorOf arguments)
  else if name = "path" then .recover line (Value.pathOf arguments)
  else if name = "eval" then rules.evalNamed evaluate scope arguments
  else rules.call evaluate name arguments

/-- Evaluates one node; `evaluate` takes care of what lies a level below. -/
def evaluateNode (rules : Rulebook) (evaluate : Evaluator) (scope : Scope) :
    Expr Mark → Run Value
  | .literal _ v => .value v
  | .reference _ name => do
    let v := (scope.get? name).getD (.text name)
    Run.trace (.binding name v)
    .value v
  | .arithmetic _ op left right => do
    let l ← evaluate scope left
    let r ← evaluate scope right
    let v ← .ofExcept (Value.arithmetic op l r)
    Run.trace (.between l op.symbol r v)
    .value v
  | .comparison _ op left right => do
    let l ← evaluate scope left
    let r ← evaluate scope right
    let v ← .ofExcept (Value.comparison op l r)
    Run.trace (.between l op.symbol r v)
    .value v
  | .logical _ op left right => do
    let l ← evaluate scope left
    let v ← connect op l fun _ => evaluate scope right
    Run.trace (.connective l op v)
    .value v
  | .sets m op left right => do
    let l ← evaluate scope left
    let r ← evaluate scope right
    let v ← .recover m.line (Value.setOperation op l r)
    Run.trace (.between l op.symbol r v)
    .value v
  | .membership m element collection => do
    let l ← evaluate scope element
    let r ← evaluate scope collection
    let v ← .recover m.line (Value.membership l r)
    Run.trace (.between l "in" r v)
    .value v
  | .negation _ operand => do
    let operand ← evaluate scope operand
    let v ← .ofExcept operand.negate
    Run.trace (.unary "-" operand v)
    .value v
  | .complement _ operand => do
    let operand ← evaluate scope operand
    let v := .boolean (!operand.isTruthy)
    Run.trace (.unary "!" operand v)
    .value v
  | .call m name arguments => do
    let arguments ← evaluateAll evaluate scope arguments
    let v ← apply rules evaluate scope m.line name arguments
    Run.trace (.call name arguments v)
    .value v

/-- Evaluates an expression with so many levels left of a limit. -/
def evaluateAt (rules : Rulebook) (limit : Nat) : Nat → Evaluator
  | 0, _, e => .fail (depthFault limit e.mark.line)
  | levels + 1, scope, e =>
    (evaluateNode rules (evaluateAt rules limit levels) scope e).orLine e.mark.line

/-- Evaluates an expression with all levels of the limit left. -/
def evaluate (rules : Rulebook) (limit : Nat) : Evaluator := evaluateAt rules limit limit

end Expr

end Premise
