import Premise.Value

/-!
The shapes that symbols and parameters can be declared with.
-/

namespace Premise

inductive Shape where
  | number
  | text
  | boolean
  | list
  | set
  | graph
  | object
  | any
  deriving Repr, DecidableEq

namespace Shape

def name : Shape → String
  | .number => "number"
  | .text => "string"
  | .boolean => "boolean"
  | .list => "list"
  | .set => "set"
  | .graph => "graph"
  | .object => "object"
  | .any => "any"

def all : List Shape := [.number, .text, .boolean, .list, .set, .graph, .object, .any]

def ofName? (name : String) : Option Shape := all.find? fun s => s.name = name

theorem ofName?_name (s : Shape) : ofName? s.name = some s := by
  cases s <;> decide

def accepts : Shape → Value → Bool
  | .any, _ => true
  | .number, .number _ => true
  | .text, .text _ => true
  | .boolean, .boolean _ => true
  | .list, .list _ => true
  | .set, .set _ => true
  | .graph, .graph _ => true
  | .object, .object _ => true
  | _, _ => false

/-- A declared shape accepts the values that go by its name. -/
theorem accepts_iff_typeName {s : Shape} (h : s ≠ .any) (v : Value) :
    s.accepts v = true ↔ v.typeName = s.name := by
  cases s <;> cases v <;> simp [accepts, Value.typeName, name] at h ⊢

end Shape

end Premise
