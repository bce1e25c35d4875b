import Premise.Eval.Error
import Premise.Value

/-!
Arithmetic on values. All of it is for numbers only.
-/

namespace Premise.Value

def arithmeticNumber (op : Arithmetic) (x y : Number) : Except EvalError Number :=
  match op with
  | .add => .ok (x + y)
  | .subtract => .ok (x - y)
  | .multiply => .ok (x * y)
  | .divide => if y == 0 then .error .divisionByZero else .ok (x / y)
  | .modulo => if y == 0 then .error .moduloByZero else .ok (Number.remainder x y)
  | .power => .ok (x ^ y)

def arithmetic (op : Arithmetic) : Value → Value → Except EvalError Value
  | .number x, .number y => (arithmeticNumber op x y).map .number
  | v, w => .error (.arithmeticOperands op v.typeName w.typeName)

def negate : Value → Except EvalError Value
  | .number x => .ok (.number (-x))
  | v => .error (.negationOperand v.typeName)

end Premise.Value
