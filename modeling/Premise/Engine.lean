import Premise.Link
import Premise.Session

/-!
Engines: everything that evaluating documents needs besides the documents themselves.
-/

namespace Premise

structure Evaluation where
  results : Table Value := ∅
  faults : List Fault := []
  trace : List String := []

structure Engine where
  limits : Limits := {}
  domains : Domains := ∅
  library : Library

namespace Engine

/-- The document, unless it is missing or too large. -/
def check (engine : Engine) (document : Option Element) : Except DocumentError Element :=
  match document with
  | none => .error .missing
  | some root =>
    let elements := root.count
    if elements > engine.limits.elements then .error (.tooLarge elements engine.limits.elements)
    else .ok root

/-- Links a document that was checked. The source, where there is one, is what the document is
known by. -/
def linkChecked (engine : Engine) (root : Element) (source : Option String) : Linked :=
  let id := source.map engine.library.identify
  Link.link engine.library engine.limits ⟨id, none, id.toList⟩ root

/-- Resolves and compiles a document and its imports, without evaluating anything. -/
def link (engine : Engine) (document : Option Element) (source : Option String) : Linked :=
  match engine.check document with
  | .error error => { faults := [.of (.document error)] }
  | .ok root => engine.linkChecked root source

/-- Evaluates a linked document: the documents it imports in full, and then its own constructs. -/
def run (engine : Engine) (linked : Linked) (root : Element) : Session :=
  let p : Program := ⟨linked.symbols, linked.rules, engine.domains, engine.limits⟩
  let scope := linked.symbols.scope
  let start : Session := { faults := linked.faults }
  let s := linked.fullImports.foldl
    (fun s i => s.evaluateDocument p scope i.space i.constraints i.root) start
  s.evaluateDocument p scope none linked.constraints root

def evaluate (engine : Engine) (document : Option Element) (source : Option String) : Evaluation :=
  match engine.check document with
  | .error error => { faults := [.of (.document error)] }
  | .ok root =>
    let s := engine.run (engine.linkChecked root source) root
    ⟨s.results, s.faults, s.trace.lines⟩

end Engine

end Premise
