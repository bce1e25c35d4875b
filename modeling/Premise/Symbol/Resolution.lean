import Premise.Element
import Premise.Fault
import Premise.Literal
import Premise.Name
import Premise.Symbol
import Premise.Value.Order

/-!
Resolving the declarations of a document to a table of symbols. Each declaration is taken on its
own, after those before it: it adds one symbol, or it is left out and one fault says why. Smaller
faults, such as a malformed edge of a graph, are reported without losing the symbol.
-/

namespace Premise.Symbol

/-- What a declaration sees: the namespace it is read under, the symbols declared before it, and
those of other documents. -/
structure Surroundings where
  scope : Option String
  table : SymbolTable
  external : SymbolTable

/-- The symbol of exactly that name; the document's own come first. -/
def Surroundings.exactly? (s : Surroundings) (name : String) : Option Symbol :=
  (s.table.get? name).or (s.external.get? name)

/-- The symbol that a reference means: first inside the namespace, then as it is written. -/
def Surroundings.lookup? (s : Surroundings) (reference : String) : Option Symbol :=
  (s.exactly? (Name.qualify s.scope reference)).or (s.exactly? reference)

/-- What a literal in a declaration stands for. -/
inductive Meaning where
  | value (v : Value)
  /-- the value of another symbol -/
  | symbol (reference : String) (s : Symbol)
  /-- text where a number should be -/
  | invalidNumber (written : String)
  | unresolved (reference : String)

namespace Meaning

def ofLiteral (s : Surroundings) (expected : Shape) : Literal → Meaning
  | .quoted content => .value (.text content)
  | .boolean b => .value (.boolean b)
  | .number x => .value (.number x)
  | .reference name =>
    match s.lookup? name with
    | some found => .symbol name found
    | none => .unresolved name
  | .bare content => if expected = .number then .invalidNumber content else .value (.text content)

/-- The value, if there is any; NaN takes the place of an invalid number. -/
def value? : Meaning → Option Value
  | .value v => some v
  | .symbol _ s => some s.value
  | .invalidNumber _ => some (.number Number.nan)
  | .unresolved _ => none

def isInvalidNumber : Meaning → Bool
  | .invalidNumber _ => true
  | .value _ | .symbol .. | .unresolved _ => false

def error? (name : String) : Meaning → Option SymbolError
  | .value _ | .symbol .. => none
  | .invalidNumber written => some (.invalidNumber written name)
  | .unresolved reference => some (.unresolved reference name)

end Meaning

/-- A value with the smaller faults found on the way to it. -/
structure Noted where
  value : Value
  errors : List SymbolError := []
  /-- whether a number could not be read; no second fault is made of the value's shape then -/
  failedNumber : Bool := false

/-- The value of a `var` or `const`. -/
def scalar (s : Surroundings) (name : String) (declared : Shape) (raw : String) :
    Except SymbolError Noted :=
  match Meaning.ofLiteral s declared (Literal.classify raw) with
  | .value v => .ok { value := v }
  | .symbol reference found =>
    if declared ≠ .any ∧ found.shape ≠ .any ∧ declared ≠ found.shape then
      .error (.referenceMismatch name declared reference found.shape)
    else .ok { value := found.value }
  | .invalidNumber written => .ok ⟨.number Number.nan, [.invalidNumber written name], true⟩
  | .unresolved reference => .error (.unresolved reference name)

def setOf (s : Surroundings) (name elements : String) : Noted :=
  let found := (Text.entries elements).map fun e =>
    Meaning.ofLiteral s .number (Literal.classify e)
  ⟨Value.ofSet (found.filterMap Meaning.value?), found.filterMap (Meaning.error? name),
    found.any Meaning.isInvalidNumber⟩

/-- Reads `from->to` or `from->relation->to`. -/
def edge? (written : String) : Option Edge :=
  match (Text.arrowPieces written.toList).map Text.trimChars with
  | [source, target] =>
    if source.isEmpty || target.isEmpty then none
    else some ⟨String.ofList source, Graph.defaultLabel, String.ofList target⟩
  | [source, label, target] =>
    if source.isEmpty || label.isEmpty || target.isEmpty then none
    else some ⟨String.ofList source, String.ofList label, String.ofList target⟩
  | _ => none

/-- The value of a `graph`, from the lists of its nodes and edges. -/
def graphOf (name nodes edges : String) : Noted :=
  let written := Text.entries edges
  let start := (Text.entries nodes).foldl Graph.addNode ∅
  { value := .graph ((written.filterMap edge?).foldl Graph.addEdge start)
    errors := (written.filter fun e => (edge? e).isNone).map fun e => .malformedEdge e name }

/-- The value of a property: a literal, where names stand for themselves. -/
def property (raw : String) : Value :=
  match Literal.classify raw with
  | .quoted content => .text content
  | .boolean b => .boolean b
  | .number x => .number x
  | .reference content => .text content
  | .bare content => .text content

/-- The value of an `entity`, from the list of its properties. -/
def entityOf (name properties : String) : Noted :=
  let written := Text.entries properties
  { value := Value.ofFields ((written.filterMap Text.keyed?).map fun p => (p.1, property p.2))
    errors :=
      (written.filter fun p => (Text.keyed? p).isNone).map fun p => .malformedProperty p name }

def valueOf (s : Surroundings) (e : Element) (name : String) (kind : SymbolKind)
    (declared : Option Shape) : Except SymbolError Noted :=
  match kind with
  | .var | .const =>
    match e.attributeOrContent? ["init", "value"] with
    | none => .ok { value := .null }
    | some raw => scalar s name (declared.getD .any) raw
  | .set => .ok (setOf s name ((e.attribute? "elements").getD ""))
  | .graph =>
    .ok (graphOf name ((e.attribute? "nodes").getD "") ((e.attribute? "edges").getD ""))
  | .entity => .ok (entityOf name ((e.attribute? "properties").getD ""))

/-- The shape in the `type` attribute; a blank one is none. -/
def declaredShape (e : Element) (name : String) : Except SymbolError (Option Shape) :=
  match (e.attribute? "type").bind Text.nonBlank? with
  | none => .ok none
  | some written =>
    match Shape.ofName? written with
    | some s => .ok (some s)
    | none => .error (.invalidShape written name)

/-- A symbol under its name, with the smaller faults of its declaration. -/
structure Declared where
  name : String
  symbol : Symbol
  errors : List SymbolError

/-- The fault of a value that has another shape than the symbol. -/
def mismatch (name : String) (shape : Shape) (n : Noted) : List SymbolError :=
  if n.failedNumber || n.value.isNull || shape.accepts n.value then []
  else [.mismatch name shape n.value.typeName]

/-- Takes one declaration: name, kind and shape are looked at before the value. -/
def declare (s : Surroundings) (e : Element) : Except SymbolError Declared := do
  match e.name? with
  | none => .error (.unnamed e.tag)
  | some short =>
    let name := Name.qualify s.scope short
    if s.table.contains name then .error (.duplicate name)
    else
      match SymbolKind.ofTag? e.tag with
      | none => .error (.unknownKind e.tag)
      | some kind =>
        let declared ← declaredShape e name
        let noted ← valueOf s e name kind declared
        let shape := kind.shape declared
        .ok ⟨name, ⟨kind, shape, noted.value, e.line⟩, noted.errors ++ mismatch name shape noted⟩

end Symbol

/-- A table of symbols with the faults of their declarations, in document order. -/
structure Resolution where
  table : SymbolTable := ∅
  faults : List Fault := []

namespace Resolution

def sectionTag : String := "symbols"

def fault (e : Element) (error : SymbolError) : Fault := (Fault.of (.symbol error)).atLine e.line

def add (scope : Option String) (external : SymbolTable) (r : Resolution) (e : Element) :
    Resolution :=
  match Symbol.declare ⟨scope, r.table, external⟩ e with
  | .error error => { r with faults := r.faults ++ [fault e error] }
  | .ok d => ⟨r.table.insert d.name d.symbol, r.faults ++ d.errors.map (fault e)⟩

/-- The declarations of a document, in document order. -/
def declarations (root : Element) : List Element :=
  (root.findAll sectionTag).flatMap Element.children

end Resolution

/-- The symbols of a document, read under a namespace and beside those of other documents. -/
def resolve (scope : Option String) (external : SymbolTable) (root : Element) : Resolution :=
  (Resolution.declarations root).foldl (Resolution.add scope external) {}

def resolve? (scope : Option String) (external : SymbolTable) : Option Element → Resolution
  | none => ⟨∅, [.of (.document .missing)]⟩
  | some root => resolve scope external root

end Premise
