import Premise.Construct.Error
import Premise.Eval.Error
import Premise.Expr.Error
import Premise.Import.Error
import Premise.Rule.Error
import Premise.Symbol.Error

/-!
Faults: what is reported when something is wrong, with advice and a line where there are any.
Almost every stage collects faults and goes on.
-/

namespace Premise

inductive FaultKind where
  /-- malformed expressions -/
  | expression
  /-- names, shapes, references and imports -/
  | semantic
  /-- evaluation -/
  | runtime
  deriving Repr, DecidableEq

namespace FaultKind

def name : FaultKind → String
  | .expression => "syntax"
  | .semantic => "semantic"
  | .runtime => "runtime"

def heading : FaultKind → String
  | .expression => "Syntax error"
  | .semantic => "Semantic error"
  | .runtime => "Runtime error"

end FaultKind

inductive Cause where
  | expression (error : ParseError)
  | document (error : DocumentError)
  | symbol (error : SymbolError)
  | override (error : OverrideError)
  | rule (error : RuleError)
  | link (error : ImportError)
  | construct (error : ConstructError)
  | evaluation (error : EvalError)
  /-- a fault that is told in so many words -/
  | stated (kind : FaultKind) (message : String)
  deriving Repr, DecidableEq

namespace Cause

def kind : Cause → FaultKind
  | .expression _ => .expression
  | .rule error => if error.isInBody then .expression else .semantic
  | .document _ | .symbol _ | .override _ | .link _ | .construct _ => .semantic
  | .evaluation _ => .runtime
  | .stated kind _ => kind

def message : Cause → String
  | .expression error => error.message
  | .document error => error.message
  | .symbol error => error.message
  | .override error => error.message
  | .rule error => error.message
  | .link error => error.message
  | .construct error => error.message
  | .evaluation error => error.message
  | .stated _ message => message

def advice : Cause → Option String
  | .expression error => error.advice
  | .document error => error.advice
  | .symbol error => error.advice
  | .rule error => error.advice
  | .link error => error.advice
  | .construct error => error.advice
  | .evaluation error => error.advice
  | .override _ | .stated .. => none

end Cause

structure Fault where
  cause : Cause
  suggestion : Option String
  line : Option Nat
  deriving Repr, DecidableEq

namespace Fault

/-- A fault with the advice of its cause and without a line. -/
def of (cause : Cause) : Fault := ⟨cause, cause.advice, none⟩

def kind (f : Fault) : FaultKind := f.cause.kind

def message (f : Fault) : String := f.cause.message

/-- The fault at a line, if one is given. -/
def atLine (f : Fault) (line : Option Nat) : Fault := { f with line := line.or f.line }

/-- The fault at a line, unless it has one. -/
def orLine (f : Fault) (line : Option Nat) : Fault := { f with line := f.line.or line }

def suggest (f : Fault) (suggestion : String) : Fault := { f with suggestion := some suggestion }

def display (f : Fault) : String :=
  let suggestion := (f.suggestion.map fun s => s!" (suggestion: {s})").getD ""
  let line := (f.line.map fun n => s!" at line {n}").getD ""
  f.kind.heading ++ ": " ++ f.message ++ suggestion ++ line

end Fault

end Premise
