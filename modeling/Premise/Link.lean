import Premise.Library
import Premise.Limits
import Premise.Rule.Compilation
import Premise.Symbol.Resolution

/-!
Linking: a document's symbols and rules together with those of all it imports.

Imports come first, depth first and in document order; then the document's own symbols are resolved
beside the imported ones, and its own rules are compiled. Of two declarations of one name the
document's own counts, and among imported ones the first; the other is reported.

The chain of the documents being imported grows by one with each import inside an import, and no
document is loaded once it is longer than the limit. `linkAt` is a recursion on how much longer it
may become.
-/

namespace Premise

/-- A document imported with `scope="full"`: its constructs are evaluated too. -/
structure FullImport where
  root : Element
  space : Option String
  constraints : List String

/-- A document with its imports merged in. -/
structure Linked where
  symbols : SymbolTable := ∅
  rules : Rulebook := ∅
  faults : List Fault := []
  /-- the names of the document's own constraints -/
  constraints : List String := []
  /-- in the order in which they are to be evaluated -/
  fullImports : List FullImport := []

namespace Link

/-- The document that is being linked: its identity and namespace, and the documents that are being
imported, the outermost first and itself last. -/
structure Position where
  id : Option String
  space : Option String
  chain : List String

/-- What the imports of a document have brought so far. -/
structure Gathered where
  symbols : SymbolTable := ∅
  rules : Rulebook := ∅
  faults : List Fault := []
  fullImports : List FullImport := []

def fault (line : Option Nat) (e : ImportError) : Fault := (Fault.of (.link e)).atLine line

/-- Adds symbols whose names are free. The line says where to report one whose name is taken. -/
def mergeSymbols (line : Symbol → Option Nat) (t : SymbolTable) :
    List (String × Symbol) → SymbolTable × List Fault
  | [] => (t, [])
  | (name, s) :: rest =>
    match t.offer name s with
    | .ok t => mergeSymbols line t rest
    | .error s =>
      let (t, faults) := mergeSymbols line t rest
      (t, fault (line s) (.conflict .symbols name) :: faults)

/-- Adds rules whose names are free. The line says where to report one whose name is taken. -/
def mergeRules (line : Rule → Option Nat) (b : Rulebook) : List Rule → Rulebook × List Fault
  | [] => (b, [])
  | r :: rest =>
    match b.offer r with
    | .ok b => mergeRules line b rest
    | .error r =>
      let (b, faults) := mergeRules line b rest
      (b, fault (line r) (.conflict .rules r.name) :: faults)

def importTag : String := "import"

def reference? (e : Element) : Option String :=
  ((e.attribute? "src").or (e.attribute? "path")).bind Text.nonBlank?

/-- The namespace of an imported document: the alias inside the importing namespace, or else the
importing namespace itself. -/
def spaceOf (space : Option String) (e : Element) : Option String :=
  match (e.attribute? "as").bind Text.nonBlank? with
  | some name => some (Name.qualify space name)
  | none => space

/-- A document that an import lets in, with the position it is linked at. -/
structure Accepted where
  root : Element
  position : Position

/-- Looks at an import: it needs a reference, a document that is not being imported already, and
`allowed` has to say that the chain may become longer. -/
def accept (library : Library) (limit : Nat) (allowed : Bool) (p : Position) (e : Element) :
    Except ImportError Accepted :=
  match reference? e with
  | none => .error .noReference
  | some reference =>
    if !allowed then .error (.tooDeep reference limit)
    else
      match library.load reference p.id with
      | .error error => .error (.failed reference error)
      | .ok loaded =>
        if p.chain.contains loaded.id then .error (.cycle (p.chain ++ [loaded.id]))
        else .ok ⟨loaded.root, some loaded.id, spaceOf p.space e, p.chain ++ [loaded.id]⟩

/-- Takes in an imported document that has been linked. -/
def take (g : Gathered) (e : Element) (a : Accepted) (child : Linked) : Gathered :=
  let (symbols, symbolFaults) := mergeSymbols (fun _ => e.line) g.symbols child.symbols.toList
  let (rules, ruleFaults) := mergeRules (fun _ => e.line) g.rules child.rules.rules
  { symbols, rules
    faults := g.faults ++ child.faults ++ symbolFaults ++ ruleFaults
    fullImports :=
      if e.attribute? "scope" = some "full" then
        g.fullImports ++ child.fullImports ++ [⟨a.root, a.position.space, child.constraints⟩]
      else g.fullImports }

/-- Takes in one import; a refused one leaves nothing but a fault. -/
def addImport (accept : Element → Except ImportError Accepted) (link : Position → Element → Linked)
    (g : Gathered) (e : Element) : Gathered :=
  match accept e with
  | .error error => { g with faults := g.faults ++ [fault e.line error] }
  | .ok a => take g e a (link a.position a.root)

/-- Puts a document on top of its imports. -/
def finish (limit : Nat) (space : Option String) (g : Gathered) (root : Element) : Linked :=
  let own := resolve space g.symbols root
  let (symbols, symbolFaults) := mergeSymbols Symbol.line own.table g.symbols.toList
  let compiled := compile space symbols limit root
  let (rules, ruleFaults) := mergeRules Rule.line compiled.rules g.rules.rules
  { symbols, rules
    faults := g.faults ++ own.faults ++ symbolFaults ++ compiled.faults ++ ruleFaults
    constraints := compiled.rules.constraints.map Rule.name
    fullImports := g.fullImports }

/-- Links a document where the chain may become longer by so many documents. -/
def linkAt (library : Library) (limits : Limits) : Nat → Position → Element → Linked
  | 0, p, root =>
    let g := (root.findAll importTag).foldl
      (addImport (accept library limits.imports false p) fun _ _ => {}) {}
    finish limits.expression p.space g root
  | room + 1, p, root =>
    let g := (root.findAll importTag).foldl
      (addImport (accept library limits.imports true p) (linkAt library limits room)) {}
    finish limits.expression p.space g root

def link (library : Library) (limits : Limits) (p : Position) (root : Element) : Linked :=
  linkAt library limits (limits.imports + 1 - p.chain.length) p root

end Link

end Premise
