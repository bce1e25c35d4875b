import Premise.Eval.Error
import Premise.Value.Equality

/-!
Membership and set algebra. Operands they are not made for do not stop an evaluation: it goes on
with a value that stands in, and the error is reported.
-/

namespace Premise

/-- A value, with the error it stands in for, if it does. -/
structure Recovered where
  value : Value
  error : Option EvalError := none

namespace Value

def occursInText (part : List Char) : List Char → Bool
  | [] => part.isEmpty
  | c :: cs => part.isPrefixOf (c :: cs) || occursInText part cs

def membership (element collection : Value) : Recovered :=
  match collection with
  | .list items => ⟨.boolean (items.any fun v => v.equals element), none⟩
  | .set items => ⟨.boolean (items.any fun v => v.equals element), none⟩
  | .text s =>
    match element with
    | .text part => ⟨.boolean (occursInText part.toList s.toList), none⟩
    | v => ⟨.boolean false, some (.elementOfText v.typeName)⟩
  | v => ⟨.boolean false, some (.collectionOperand v.typeName)⟩

/-- The elements of the union, intersection or difference of two sets. -/
def combine (op : SetOperator) (xs ys : List Value) : List Value :=
  match op with
  | .union => ys.foldl insertElement xs
  | .intersect => xs.filter fun v => occursIn v ys
  | .diff => xs.filter fun v => !occursIn v ys

def setOperation (op : SetOperator) : Value → Value → Recovered
  | .set xs, .set ys => ⟨.set (combine op xs ys), none⟩
  | v, w => ⟨.null, some (.setOperands op v.typeName w.typeName)⟩

end Value

end Premise
