import Premise.Eval.Error
import Premise.Value.Equality

/-!
Comparing values. Any two values can be equal or not; only two numbers or two texts come one before
the other.
-/

namespace Premise.Value

def comparesNumbers (op : Comparison) (x y : Number) : Bool :=
  match op with
  | .greater => x > y
  | .less => x < y
  | .greaterOrEqual => x ≥ y
  | .lessOrEqual => x ≤ y
  | .equal => x == y
  | .notEqual => x != y

def comparesTexts (op : Comparison) (s t : String) : Bool :=
  match op with
  | .greater => t < s
  | .less => s < t
  | .greaterOrEqual => t ≤ s
  | .lessOrEqual => s ≤ t
  | .equal => s = t
  | .notEqual => s ≠ t

def ordered (op : Comparison) : Value → Value → Except EvalError Bool
  | .number x, .number y => .ok (comparesNumbers op x y)
  | .text s, .text t => .ok (comparesTexts op s t)
  | v, w => .error (.incomparable v.typeName op w.typeName)

def comparison (op : Comparison) (v w : Value) : Except EvalError Value :=
  match op with
  | .equal => .ok (.boolean (v.equals w))
  | .notEqual => .ok (.boolean (!v.equals w))
  | _ => (ordered op v w).map .boolean

end Premise.Value
