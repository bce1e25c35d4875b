import Premise.Value.Order

/-!
The equality of the expression language, which `==`, `!=` and `in` ask for. Numbers are compared as
numbers, so that 0 equals −0 and NaN equals nothing, and so are the elements of lists; all other
values are equal when the order calls them the same.
-/

namespace Premise.Value

mutual

def equals : Value → Value → Bool
  | .number a, .number b => a == b
  | .list xs, .list ys => equalsAll xs ys
  | v, w => v == w

def equalsAll : List Value → List Value → Bool
  | [], [] => true
  | v :: vs, w :: ws => equals v w && equalsAll vs ws
  | _, _ => false

end

end Premise.Value
