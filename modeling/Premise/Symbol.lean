import Premise.Scope
import Premise.Shape

/-!
Symbols: named values that documents declare.
-/

namespace Premise

inductive SymbolKind where
  | var
  | const
  | set
  | graph
  | entity
  deriving Repr, DecidableEq

namespace SymbolKind

def tag : SymbolKind → String
  | .var => "var"
  | .const => "const"
  | .set => "set"
  | .graph => "graph"
  | .entity => "entity"

def all : List SymbolKind := [.var, .const, .set, .graph, .entity]

def ofTag? (tag : String) : Option SymbolKind := all.find? fun k => k.tag = tag

theorem ofTag?_tag (k : SymbolKind) : ofTag? k.tag = some k := by
  cases k <;> decide

/-- The shape of a symbol of this kind, where only `var` and `const` have a choice. -/
def shape (k : SymbolKind) (declared : Option Shape) : Shape :=
  match k with
  | .var | .const => declared.getD .any
  | .set => .set
  | .graph => .graph
  | .entity => .object

end SymbolKind

structure Symbol where
  kind : SymbolKind
  shape : Shape
  value : Value
  line : Option Nat

namespace Symbol

/-- Only variables can change. -/
def isMutable (s : Symbol) : Bool := s.kind = .var

end Symbol

abbrev SymbolTable := Table Symbol

namespace SymbolTable

/-- The scope in which every symbol stands for its value. -/
def scope (t : SymbolTable) : Scope := .ofTable (t.map Symbol.value)

theorem get?_scope (t : SymbolTable) (name : String) :
    t.scope.get? name = (t.get? name).map Symbol.value := by
  simp [scope, Table.get?_map]

end SymbolTable

end Premise
