import Premise.Expr.Operator
import Premise.Value

/-!
Expression trees. Every node carries an annotation: nothing at all while a tree is built, and its
mark once the nodes are numbered.
-/

namespace Premise

inductive Expr (α : Type) where
  | literal (mark : α) (v : Value)
  /-- a name; it stands for itself where nothing is bound to it -/
  | reference (mark : α) (name : String)
  | arithmetic (mark : α) (op : Arithmetic) (left right : Expr α)
  | comparison (mark : α) (op : Comparison) (left right : Expr α)
  | logical (mark : α) (op : Connective) (left right : Expr α)
  | sets (mark : α) (op : SetOperator) (left right : Expr α)
  | membership (mark : α) (element collection : Expr α)
  | negation (mark : α) (operand : Expr α)
  | complement (mark : α) (operand : Expr α)
  | call (mark : α) (name : String) (arguments : List (Expr α))

instance {α : Type} [Inhabited α] : Inhabited (Expr α) := ⟨.literal default .null⟩

/-- The number of a node in its tree, and the line of the element its text came from. -/
structure Mark where
  id : Nat
  line : Option Nat
  deriving Repr, DecidableEq, Inhabited

namespace Mark

def idText (id : Nat) : String := s!"expr_{id}"

end Mark

namespace Expr

variable {α : Type}

def mark : Expr α → α
  | .literal m _ | .reference m _ | .arithmetic m _ _ _ | .comparison m _ _ _ | .logical m _ _ _
  | .sets m _ _ _ | .membership m _ _ | .negation m _ | .complement m _ | .call m _ _ => m

def binary (m : α) (op : BinaryOperator) (left right : Expr α) : Expr α :=
  match op with
  | .arithmetic op => .arithmetic m op left right
  | .comparison op => .comparison m op left right
  | .logical op => .logical m op left right
  | .sets op => .sets m op left right
  | .membership => .membership m left right

def unary (m : α) (op : UnaryOperator) (operand : Expr α) : Expr α :=
  match op with
  | .not => .complement m operand
  | .negative => .negation m operand

end Expr

end Premise
