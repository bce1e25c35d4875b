import Premise.Expr
import Premise.Rule.Kind
import Premise.Scope
import Premise.Shape

/-!
Rules: named expressions that can be called, chained and evaluated by name.

A rule keeps the scope it was declared in, so that it goes on seeing the symbols of its own document
wherever it is called.
-/

namespace Premise

structure Parameter where
  name : String
  shape : Shape
  deriving Repr, DecidableEq

namespace Parameter

def written (p : Parameter) : String := p.name ++ ":" ++ p.shape.name

end Parameter

structure Rule where
  name : String
  kind : RuleKind
  body : Expr Mark
  parameters : List Parameter
  line : Option Nat
  scope : Scope

/-- Rules in the order of their declarations, no two of one name. -/
structure Rulebook where
  rules : List Rule
  distinct : rules.Pairwise fun a b => a.name ≠ b.name

namespace Rulebook

def empty : Rulebook := ⟨[], List.Pairwise.nil⟩

instance : EmptyCollection Rulebook := ⟨empty⟩
instance : Inhabited Rulebook := ⟨empty⟩

def get? (b : Rulebook) (name : String) : Option Rule := b.rules.find? fun r => r.name = name

def contains (b : Rulebook) (name : String) : Bool := (b.get? name).isSome

def size (b : Rulebook) : Nat := b.rules.length

def isEmpty (b : Rulebook) : Bool := b.rules.isEmpty

def constraints (b : Rulebook) : List Rule := b.rules.filter fun r => r.kind = .constraint

theorem ne_of_get?_eq_none {b : Rulebook} {name : String} (h : b.get? name = none) :
    ∀ r ∈ b.rules, r.name ≠ name := by
  intro r hr heq
  have := List.find?_eq_none.mp h r hr
  simp [heq] at this

/-- Adds a rule behind the others, or hands it back when its name is taken. -/
def offer (b : Rulebook) (r : Rule) : Except Rule Rulebook :=
  match h : b.get? r.name with
  | some _ => .error r
  | none => .ok ⟨b.rules ++ [r], by
      rw [List.pairwise_append]
      exact ⟨b.distinct, List.pairwise_singleton _ _, fun a ha c hc => by
        rw [List.mem_singleton.mp hc]
        exact ne_of_get?_eq_none h a ha⟩⟩

end Rulebook

end Premise
