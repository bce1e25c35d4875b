import Premise.Element
import Premise.Expr.Parse
import Premise.Fault
import Premise.Rule
import Premise.Symbol

/-!
Compiling the rules of a document. Each declaration adds one rule, or one fault says why it was
left out.
-/

namespace Premise.Rule

structure Surroundings where
  scope : Option String
  /-- what names stand for in the body -/
  values : Scope
  /-- levels of nesting in the body -/
  limit : Nat

/-- Reads `name` or `name:shape`. -/
def parameter (kind : RuleKind) (name written : String) : Except RuleError Parameter :=
  match Text.splitAtFirst ':' written.toList with
  | none => .ok ⟨written, .any⟩
  | some (parameter, shape) =>
    let parameter := String.ofList (Text.trimChars parameter)
    let shape := String.ofList (Text.trimChars shape)
    match Shape.ofName? shape with
    | some s => .ok ⟨parameter, s⟩
    | none => .error (.invalidShape shape parameter kind name)

/-- Reads parameters behind those that were read before. -/
def parametersAfter (kind : RuleKind) (name : String) (read : List Parameter) :
    List String → Except RuleError (List Parameter)
  | [] => .ok read
  | written :: rest => do
    let p ← parameter kind name written
    if read.any (fun q => q.name = p.name) then .error (.duplicateParameter p.name kind name)
    else parametersAfter kind name (read ++ [p]) rest

def parametersOf (kind : RuleKind) (name written : String) : Except RuleError (List Parameter) :=
  parametersAfter kind name [] (Text.entries written)

/-- Parses the body: the text of the element, or else its `body` attribute. -/
def bodyOf (s : Surroundings) (e : Element) (kind : RuleKind) (name : String)
    (parameters : List Parameter) : Except RuleError (Expr Mark) :=
  match e.content?.or (e.attribute? "body") with
  | none => .error (.missingBody kind name)
  | some text =>
    match Expr.parse ⟨s.scope, parameters.map Parameter.name⟩ s.limit e.line text with
    | .ok body => .ok body
    | .error error => .error (.malformedBody kind name error)

/-- Compiles one declaration under a given short name. -/
def compile (s : Surroundings) (e : Element) (kind : RuleKind) (short : String) :
    Except RuleError Rule := do
  let name := Name.qualify s.scope short
  let parameters ← parametersOf kind name ((e.attribute? "params").getD "")
  let body ← bodyOf s e kind name parameters
  .ok ⟨name, kind, body, parameters, e.line, s.values⟩

end Rule

/-- A rulebook with the faults of its declarations, in document order. -/
structure Compilation where
  rules : Rulebook := ∅
  faults : List Fault := []
  /-- how many declarations without a name there were -/
  unnamed : Nat := 0

namespace Compilation

def sectionTag : String := "rules"

/-- The name of the n-th declaration that has none. -/
def generatedName (n : Nat) : String := s!"anonymous{n}"

def refuse (c : Compilation) (e : Element) (error : RuleError) : Compilation :=
  { c with faults := c.faults ++ [(Fault.of (.rule error)).atLine e.line] }

def take (s : Rule.Surroundings) (c : Compilation) (e : Element) (kind : RuleKind)
    (short : String) : Compilation :=
  match Rule.compile s e kind short with
  | .error error => c.refuse e error
  | .ok rule =>
    match c.rules.offer rule with
    | .error rule => c.refuse e (.duplicate rule.name)
    | .ok rules => { c with rules }

def add (s : Rule.Surroundings) (c : Compilation) (e : Element) : Compilation :=
  match RuleKind.ofTag? e.tag with
  | none => c.refuse e (.unknownKind e.tag)
  | some kind =>
    match e.name? with
    | some short => c.take s e kind short
    | none =>
      let c := { c with unnamed := c.unnamed + 1 }
      c.take s e kind (generatedName c.unnamed)

/-- The declarations of a document, in document order. -/
def declarations (root : Element) : List Element :=
  (root.findAll sectionTag).flatMap Element.children

end Compilation

/-- The rules of a document, read under a namespace and seeing the symbols of the table. -/
def compile (scope : Option String) (symbols : SymbolTable) (limit : Nat) (root : Element) :
    Compilation :=
  (Compilation.declarations root).foldl (Compilation.add ⟨scope, symbols.scope, limit⟩) {}

def compile? (scope : Option String) (symbols : SymbolTable) (limit : Nat) :
    Option Element → Compilation
  | none => {}
  | some root => compile scope symbols limit root

end Premise
