import Premise.Table
import Premise.Value

/-!
Scopes: what names stand for while an expression is evaluated. Bindings are laid over a base, and
neither the base nor the scope a binding was added to ever changes.
-/

namespace Premise

structure Scope where
  base : Table Value
  overrides : Table Value

namespace Scope

def ofTable (values : Table Value) : Scope := ⟨values, ∅⟩

def get? (s : Scope) (name : String) : Option Value := (s.overrides.get? name).or (s.base.get? name)

def bind (s : Scope) (name : String) (v : Value) : Scope :=
  { s with overrides := s.overrides.insert name v }

/-- The scope with these bindings laid over it, of which later ones win. -/
def overlay (s : Scope) (bindings : List (String × Value)) : Scope :=
  { s with overrides := s.overrides.insertAll bindings }

@[simp] theorem get?_ofTable (values : Table Value) (name : String) :
    (ofTable values).get? name = values.get? name := rfl

@[simp] theorem get?_bind_self (s : Scope) (name : String) (v : Value) :
    (s.bind name v).get? name = some v := by
  simp [get?, bind]

theorem get?_bind_of_ne (s : Scope) {name other : String} (v : Value) (h : other ≠ name) :
    (s.bind name v).get? other = s.get? other := by
  simp [get?, bind, Table.get?_insert_of_ne _ _ h]

end Scope

end Premise
