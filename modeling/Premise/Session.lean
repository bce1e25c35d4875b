import Premise.Construct
import Premise.Trace

/-!
Sessions: what the evaluation of a document has come to so far. Results are recorded by name,
faults are kept in the order they came up, and steps go to the trace.

What was recorded is kept as it was written; `results` is the table it comes to.
-/

namespace Premise

structure Session where
  /-- recorded results, in the order they were recorded -/
  writes : List (String × Value) := []
  faults : List Fault := []
  trace : Trace := {}
  /-- how many names were generated for each tag -/
  generated : Table Nat := ∅

namespace Session

/-- The results by name; of those recorded under one name the last counts. -/
def results (s : Session) : Table Value := .ofList s.writes

def report (s : Session) (faults : List Fault) : Session := { s with faults := s.faults ++ faults }

/-- Adds steps to the trace; their lines are written only while one is active. -/
def follow (s : Session) (steps : List Step) : Session :=
  if s.trace.isActive then { s with trace := s.trace.add (steps.map Step.line) } else s

def record (s : Session) (name : String) (v : Value) : Session :=
  { s with writes := s.writes ++ [(name, v)] }

/-- The next generated name for a tag: `query1`, `query2`, and so on. -/
def generateName (s : Session) (tag : String) : String × Session :=
  let n := (s.generated.get? tag).getD 0 + 1
  (s!"{tag}{n}", { s with generated := s.generated.insert tag n })

/-- The name of an element, or a generated one. -/
def nameOf (s : Session) (e : Element) : String × Session :=
  match e.name? with
  | some name => (name, s)
  | none => s.generateName e.tag

/-- Takes in what a run reported; a failure is a fault at the given line. -/
def absorb {α : Type} (s : Session) (line : Option Nat) (r : Run α) : Session :=
  let s := (s.report r.faults).follow r.steps
  match r.outcome with
  | .ok _ => s
  | .error fault => s.report [fault.atLine line]

/-- Takes in a run and records its value under a name. -/
def conclude (s : Session) (f : Frame) (name : String) (line : Option Nat) (r : Run Value) :
    Session :=
  let s := s.absorb line r
  match r.outcome with
  | .ok v => (s.follow [.binding name v]).record (f.resultName name) v
  | .error _ => s

/-- Does something under a trace header of its own. -/
def traced (s : Session) (header : String) (act : Session → Session) : Session :=
  let previous := s.trace.active
  let s := act { s with trace := s.trace.start header }
  { s with trace := s.trace.finish previous }

end Session

/-- What the elements of a document are to its evaluation, by their tags. -/
inductive Role where
  /-- declarations and imports, which are dealt with beforehand -/
  | declarations
  /-- a section whose children are evaluated -/
  | evaluated
  /-- a section whose children are evaluated and traced -/
  | simulated
  | query
  | quantifier (universal : Bool)
  | aggregate
  | assertion
  | branch
  /-- anything else -/
  | domain
  deriving Repr, DecidableEq

namespace Role

def ofTag (tag : String) : Role :=
  if tag = "symbols" ∨ tag = "rules" ∨ tag = "import" then .declarations
  else if tag = "queries" ∨ tag = "assertions" then .evaluated
  else if tag = "simulate" then .simulated
  else if tag = "query" then .query
  else if tag = "exists" then .quantifier false
  else if tag = "forall" then .quantifier true
  else if tag = "aggregate" then .aggregate
  else if tag = "assert" then .assertion
  else if tag = "counterfactual" ∨ tag = "branch" then .branch
  else .domain

end Role

namespace Session

/-- Evaluates a query under its name; with `trace="full"` it is traced, unless it is already. -/
def query (p : Program) (f : Frame) (s : Session) (e : Element) : Session :=
  let (name, s) := s.nameOf e
  let r := Construct.query p f e
  if e.attribute? "trace" = some "full" ∧ !s.trace.isActive then
    s.traced s!"trace query '{name}'" fun s => s.conclude f name e.line r
  else s.conclude f name e.line r

def domainName (e : Element) : String := e.name?.getD ("domain_" ++ e.tag)

def domain (p : Program) (f : Frame) (s : Session) (e : Element) : Session :=
  match p.domains.get? e.tag with
  | none => s.report [(Fault.of (.construct (.unknownTag e.tag))).atLine e.line]
  | some handler =>
    let outcome := handler e p.symbols
    let name := domainName e
    let s := match outcome.result with
      | some v => (s.follow [.binding name v]).record (f.resultName name) v
      | none => s
    match outcome.error with
    | some message => s.report [(Fault.of (.evaluation (.reported message))).atLine e.line]
    | none => s

/-- Reads the overrides of a branch, names it, and yields the frame inside. -/
def enterBranch (p : Program) (f : Frame) (s : Session) (e : Element) : Frame × Session :=
  let (overrides, faults) := Construct.overrides p f e
  let s := (s.report faults).follow [.branch e.tag overrides]
  let (name, s) := s.nameOf e
  (f.branch name overrides, s)

def simulationHeader (e : Element) : String :=
  s!"simulate {e.tag} '" ++ (e.attribute? "name").getD e.tag ++ "'"

mutual

def visit (p : Program) (f : Frame) (s : Session) : Element → Session
  | ⟨tag, attributes, children, text, line⟩ =>
    let e : Element := ⟨tag, attributes, children, text, line⟩
    match Role.ofTag tag with
    | .declarations => s
    | .evaluated => visitAll p f s children
    | .simulated => simulateAll p f s children
    | .query => s.query p f e
    | .quantifier universal =>
      let (name, s) := s.nameOf e
      s.conclude f name line (Construct.quantifier p f universal e)
    | .aggregate =>
      let (name, s) := s.nameOf e
      s.conclude f name line (Construct.aggregate f e)
    | .assertion => s.absorb line (Construct.assertion p f e)
    | .branch =>
      let (inner, s) := s.enterBranch p f e
      visitAll p inner s children
    | .domain => s.domain p f e

def visitAll (p : Program) (f : Frame) (s : Session) : List Element → Session
  | [] => s
  | e :: es => visitAll p f (visit p f s e) es

/-- Evaluates elements from first to last, each under a trace header of its own. -/
def simulateAll (p : Program) (f : Frame) (s : Session) : List Element → Session
  | [] => s
  | e :: es => simulateAll p f (s.traced (simulationHeader e) fun s => visit p f s e) es

end

/-- Checks those of the named constraints that there are. -/
def checkConstraints (p : Program) (s : Session) (names : List String) : Session :=
  (names.filterMap p.rules.get?).foldl (fun s r => s.absorb r.line (Construct.constraint p r)) s

/-- Checks the constraints of a document and then evaluates its elements. -/
def evaluateDocument (p : Program) (scope : Scope) (space : Option String)
    (constraints : List String) (s : Session) (root : Element) : Session :=
  visitAll p (.ofDocument scope space) (s.checkConstraints p constraints) root.children

end Session

end Premise
