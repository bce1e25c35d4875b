import Premise.Scope

/-!
Scopes numbered in the order they were made. Scopes that were derived from one another, in however
many steps, share the base of the scope they all come from.
-/

namespace Premise.Scope

/-- A scope with the number of the scope it goes back to. -/
structure Member where
  scope : Scope
  origin : Nat

structure Family where
  members : List Member := []

namespace Family

/-- Adds a scope with a base of its own. -/
def found (f : Family) (s : Scope) : Family := ⟨f.members ++ [⟨s, f.members.length⟩]⟩

def derive (f : Family) (parent : Nat) (change : Scope → Scope) : Option Family :=
  (f.members[parent]?).map fun m => ⟨f.members ++ [⟨change m.scope, m.origin⟩]⟩

def scope? (f : Family) (number : Nat) : Option Scope := (f.members[number]?).map Member.scope

def shareBase (f : Family) (i j : Nat) : Bool :=
  match f.members[i]?, f.members[j]? with
  | some m, some n => m.origin = n.origin
  | _, _ => false

end Family

end Premise.Scope
