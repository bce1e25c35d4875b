import Premise.Expr.Parse
import Premise.Name
import Premise.Program

/-!
Frames: where a construct stands. Inside a branch the scope carries the overrides of the branch, and
results go by the name of the branch; the scope the document was entered with stays at hand.
-/

namespace Premise

structure Frame where
  scope : Scope
  /-- the scope the document was entered with, which no branch reaches -/
  base : Scope
  /-- the namespace that names in the document are read under -/
  space : Option String
  /-- what the names of results are put behind -/
  path : Option String

namespace Frame

def ofDocument (scope : Scope) (space : Option String) : Frame := ⟨scope, scope, space, space⟩

def resultName (f : Frame) (name : String) : String := Name.qualify f.path name

/-- What a name stands for: first inside the namespace, then as it is written. -/
def lookup? (f : Frame) (name : String) : Option Value :=
  (f.scope.get? (Name.qualify f.space name)).or (f.scope.get? name)

def branch (f : Frame) (name : String) (overrides : List (String × Value)) : Frame :=
  { f with scope := f.scope.overlay overrides, path := some (f.resultName name) }

def parse (f : Frame) (p : Program) (line : Option Nat) (text : String) : Run (Expr Mark) :=
  match Expr.parse { scope := f.space } p.limits.expression line text with
  | .ok e => .value e
  | .error error => .fail ((Fault.of (.expression error)).atLine line)

/-- The elements of a collection that a construct names as its target. -/
def collection (f : Frame) (target construct : String) : Run (List Value) :=
  match f.lookup? target with
  | none => .wrong (.unknownCollection target construct)
  | some v =>
    match v.elements? with
    | some items => .value items
    | none => .wrong (.noCollection target construct v.typeName)

end Frame

end Premise
