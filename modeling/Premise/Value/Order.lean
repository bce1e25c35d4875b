import Premise.Value
import Premise.Number.Order

/-!
The total order of values: within a shape by content, numbers by their total order, collections
lexicographically; across shapes by rank. Sets are kept in this order, so it also says when two
elements are the same.
-/

namespace Premise.Value

/-- The place of a value's shape among the shapes. -/
def rank : Value → Nat
  | .null => 0
  | .boolean _ => 1
  | .number _ => 2
  | .text _ => 3
  | .list _ => 4
  | .set _ => 5
  | .object _ => 6
  | .graph _ => 7
  | .error _ => 8

mutual

def compare : Value → Value → Ordering
  | .null, .null => .eq
  | .boolean a, .boolean b => Ord.compare a b
  | .number a, .number b => Number.compareTotal a b
  | .text a, .text b => Ord.compare a b
  | .list xs, .list ys => compareAll xs ys
  | .set xs, .set ys => compareAll xs ys
  | .object fs, .object gs => compareFields fs gs
  | .graph g, .graph h => g.compare h
  | .error a, .error b => Ord.compare a b
  | v, w => Ord.compare v.rank w.rank

def compareAll : List Value → List Value → Ordering
  | [], [] => .eq
  | [], _ :: _ => .lt
  | _ :: _, [] => .gt
  | v :: vs, w :: ws => (compare v w).then (compareAll vs ws)

def compareFields : List (String × Value) → List (String × Value) → Ordering
  | [], [] => .eq
  | [], _ :: _ => .lt
  | _ :: _, [] => .gt
  | (m, v) :: fs, (n, w) :: gs =>
    ((Ord.compare m n).then (compare v w)).then (compareFields fs gs)

end

/-- Two values are the same when neither comes before the other. -/
instance : BEq Value := ⟨fun v w => compare v w == .eq⟩

/-- Whether a list of elements is that of a set. -/
def Ascending (items : List Value) : Prop := items.Pairwise fun v w => compare v w = .lt

/-- Adds an element in its place, unless it is there. -/
def insertElement (items : List Value) (v : Value) : List Value :=
  match items with
  | [] => [v]
  | w :: ws =>
    match compare v w with
    | .lt => v :: w :: ws
    | .eq => w :: ws
    | .gt => w :: insertElement ws v

/-- The elements of the set that holds these values. -/
def sortedElements (vs : List Value) : List Value := vs.foldl insertElement []

def ofSet (vs : List Value) : Value := .set (sortedElements vs)

/-- Whether one of the elements is the same as the value. -/
def occursIn (v : Value) (items : List Value) : Bool := items.any (· == v)

end Premise.Value
