import Premise.Eval.Step
import Premise.Fault
import Premise.Value.Membership

/-!
Runs of an evaluation: how it ended, the faults it reported on the way without stopping, and its
steps. What was reported before a failure is kept.
-/

namespace Premise

structure Run (α : Type) where
  outcome : Except Fault α
  faults : List Fault := []
  steps : List Step := []

namespace Run

variable {α β : Type}

def value (a : α) : Run α := { outcome := .ok a }

def fail (f : Fault) : Run α := { outcome := .error f }

def wrong (e : EvalError) : Run α := fail (.of (.evaluation e))

def after (faults : List Fault) (steps : List Step) (r : Run α) : Run α :=
  ⟨r.outcome, faults ++ r.faults, steps ++ r.steps⟩

/-- One run after another, unless the first fails. -/
def andThen (r : Run α) (f : α → Run β) : Run β :=
  match r.outcome with
  | .error e => ⟨.error e, r.faults, r.steps⟩
  | .ok a => (f a).after r.faults r.steps

instance : Monad Run where
  pure := value
  bind := andThen

def report (f : Fault) : Run Unit := { outcome := .ok (), faults := [f] }

def trace (s : Step) : Run Unit := { outcome := .ok (), steps := [s] }

def ofExcept : Except EvalError α → Run α
  | .ok a => value a
  | .error e => wrong e

/-- Goes on with the value, and reports the error it stands in for at a line. -/
def recover (line : Option Nat) (r : Recovered) : Run Value :=
  ⟨.ok r.value, r.error.toList.map fun e => (Fault.of (.evaluation e)).atLine line, []⟩

/-- Puts a failure at a line, unless it has one. -/
def orLine (line : Option Nat) (r : Run α) : Run α :=
  { r with outcome := r.outcome.mapError (Fault.orLine · line) }

end Run

end Premise
