import Premise.Expr

/-!
Numbering the nodes of a tree: operands before their operator, from left to right, without gaps.
-/

namespace Premise.Expr

variable {α : Type}

mutual

/-- The nodes of a tree in the order of their numbers, by their annotations. -/
def marks : Expr α → List α
  | .literal m _ => [m]
  | .reference m _ => [m]
  | .arithmetic m _ left right => marks left ++ marks right ++ [m]
  | .comparison m _ left right => marks left ++ marks right ++ [m]
  | .logical m _ left right => marks left ++ marks right ++ [m]
  | .sets m _ left right => marks left ++ marks right ++ [m]
  | .membership m element collection => marks element ++ marks collection ++ [m]
  | .negation m operand => marks operand ++ [m]
  | .complement m operand => marks operand ++ [m]
  | .call m _ arguments => marksAll arguments ++ [m]

def marksAll : List (Expr α) → List α
  | [] => []
  | e :: es => marks e ++ marksAll es

end

mutual

/-- The tree with its nodes numbered from `next` on, and the number after the last. -/
def numberFrom (line : Option Nat) (next : Nat) : Expr α → Expr Mark × Nat
  | .literal _ v => (.literal ⟨next, line⟩ v, next + 1)
  | .reference _ name => (.reference ⟨next, line⟩ name, next + 1)
  | .arithmetic _ op left right =>
    let l := numberFrom line next left
    let r := numberFrom line l.2 right
    (.arithmetic ⟨r.2, line⟩ op l.1 r.1, r.2 + 1)
  | .comparison _ op left right =>
    let l := numberFrom line next left
    let r := numberFrom line l.2 right
    (.comparison ⟨r.2, line⟩ op l.1 r.1, r.2 + 1)
  | .logical _ op left right =>
    let l := numberFrom line next left
    let r := numberFrom line l.2 right
    (.logical ⟨r.2, line⟩ op l.1 r.1, r.2 + 1)
  | .sets _ op left right =>
    let l := numberFrom line next left
    let r := numberFrom line l.2 right
    (.sets ⟨r.2, line⟩ op l.1 r.1, r.2 + 1)
  | .membership _ element collection =>
    let l := numberFrom line next element
    let r := numberFrom line l.2 collection
    (.membership ⟨r.2, line⟩ l.1 r.1, r.2 + 1)
  | .negation _ operand =>
    let e := numberFrom line next operand
    (.negation ⟨e.2, line⟩ e.1, e.2 + 1)
  | .complement _ operand =>
    let e := numberFrom line next operand
    (.complement ⟨e.2, line⟩ e.1, e.2 + 1)
  | .call _ name arguments =>
    let es := numberAllFrom line next arguments
    (.call ⟨es.2, line⟩ name es.1, es.2 + 1)

def numberAllFrom (line : Option Nat) (next : Nat) : List (Expr α) → List (Expr Mark) × Nat
  | [] => ([], next)
  | e :: es =>
    let head := numberFrom line next e
    let tail := numberAllFrom line head.2 es
    (head.1 :: tail.1, tail.2)

end

/-- The tree with its nodes numbered from 0 on, all of them on one line. -/
def numbered (line : Option Nat) (e : Expr α) : Expr Mark := (numberFrom line 0 e).1

end Premise.Expr
