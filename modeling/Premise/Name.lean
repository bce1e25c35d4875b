/-!
Names, and how a namespace is put in front of them.
-/

namespace Premise.Name

/-- The functions that every expression can call; no namespace applies to them. -/
def builtins : List String := ["error", "path", "eval"]

/-- What the current element of a collection and the current value of a chain are bound to. -/
def item : String := "item"

/-- The name inside a namespace; an empty namespace is none. -/
def qualify (scope : Option String) (name : String) : String :=
  match scope with
  | some ns => if ns.isEmpty then name else ns ++ "." ++ name
  | none => name

/-- What the names in an expression are read under. -/
structure Reading where
  scope : Option String := none
  /-- declared parameters, which no namespace applies to -/
  parameters : List String := []

/-- The name as it stands in an expression tree: behind the namespace, where there is one, unless
it is a builtin, the current element or a parameter. -/
def Reading.resolve (r : Reading) (name : String) : String :=
  match r.scope with
  | some ns =>
    if builtins.contains name || name = item || r.parameters.contains name then name
    else ns ++ "." ++ name
  | none => name

end Premise.Name
