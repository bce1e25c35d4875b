import Premise.Proofs.Program
import Premise.Proofs.Script

/-!
Where a failure comes from, and at which line it is reported.

A fault is raised by one node, without a line, and ends the evaluations that the node stands in, one
after the other. `Script.failure` finds these expressions. Each puts its line on the fault unless
the fault has one, so it leaves them with the line of the innermost that has any
(`Expr.fault?_evaluateAt`). A session then puts the line of the element or constraint in place of
it, where there is one (`Session.failure_lines`). Faults that a node recovers from do not go this
way: they are reported at the line of the node.
-/

namespace Premise

namespace Run

variable {α β : Type}

/-- What the run fails with. -/
def fault? (r : Run α) : Option Fault :=
  match r.outcome with
  | .ok _ => none
  | .error fault => some fault

theorem fault?_orLine (r : Run α) (line : Option Nat) :
    (r.orLine line).fault? = r.fault?.map (Fault.orLine · line) := by
  unfold fault? orLine
  cases r.outcome <;> rfl

theorem fault?_andThen (r : Run α) (f : α → Run β) :
    (r >>= f).fault? = match r.outcome with
      | .ok a => (f a).fault?
      | .error fault => some fault := by
  show (r.andThen f).fault? = _
  unfold andThen
  cases r.outcome <;> rfl

theorem fault?_eq_some {r : Run α} {fault : Fault} :
    r.fault? = some fault ↔ r.outcome = .error fault := by
  unfold fault?
  cases r.outcome <;> simp

theorem reported_of_fault? {r : Run α} {fault : Fault} (h : r.fault? = some fault)
    (line : Option Nat) : r.reported line = r.faults ++ [fault.atLine line] := by
  unfold reported
  rw [fault?_eq_some.mp h]

end Run

/-- A fault and the evaluations it has ended. -/
structure Failure where
  /-- what was being evaluated, the expression that raised the fault first -/
  path : List (Expr Mark)
  /-- the fault as it was raised -/
  fault : Fault

namespace Failure

/-- The line of the innermost expression that has one. -/
def line (x : Failure) : Option Nat := x.path.findSome? fun e => e.mark.line

/-- The fault as the outermost of the evaluations passes it on. -/
def passed (x : Failure) : Fault := x.fault.orLine x.line

/-- The fault as it is reported for an element or a constraint at a line. -/
def reported (x : Failure) (line : Option Nat) : Fault := { x.fault with line := line.or x.line }

def within (x : Failure) (e : Expr Mark) : Failure := { x with path := x.path ++ [e] }

theorem passed_within (x : Failure) (e : Expr Mark) :
    (x.within e).passed = x.passed.orLine e.mark.line := by
  have hline : (x.within e).line = x.line.or e.mark.line := by
    simp [line, within, List.findSome?_append, List.findSome?_cons]
    cases e.mark.line <;> rfl
  unfold passed
  rw [hline]
  simp only [within, Fault.orLine, Option.or_assoc]

/-- The line of an element takes the place of the line that the fault had. -/
theorem atLine_passed {x : Failure} (h : x.fault.line = none) (line : Option Nat) :
    x.passed.atLine line = x.reported line := by
  simp only [passed, reported, Fault.orLine, Fault.atLine, h, Option.none_or]

end Failure

namespace Script

variable {α β : Type}

/-- How the script fails where `evaluate` answers it, if it does; `below` says how evaluations
fail. -/
def failure (evaluate : Evaluator) (below : Scope → Expr Mark → Option Failure) :
    Script α → Option Failure
  | .finish (.ok _) => none
  | .finish (.error fault) => some ⟨[], fault⟩
  | .tell _ _ rest => rest.failure evaluate below
  | .evaluate scope e rest =>
    match (evaluate scope e).outcome with
    | .ok v => (rest v).failure evaluate below
    | .error _ => below scope e

/-- What the script says itself: it fails without a line, and faults it goes on from are at this
line. -/
def Speaks (line : Option Nat) : Script α → Prop
  | .finish (.ok _) => True
  | .finish (.error fault) => fault.line = none
  | .tell faults _ rest => (∀ fault ∈ faults, fault.line = line) ∧ rest.Speaks line
  | .evaluate _ _ rest => ∀ v, (rest v).Speaks line

section

variable {evaluate : Evaluator} {below : Scope → Expr Mark → Option Failure}

/-- If `below` says how evaluations fail, `failure` says how scripts do. -/
theorem fault?_run (h : ∀ scope e, (evaluate scope e).fault? = (below scope e).map Failure.passed)
    (script : Script α) :
    (script.run evaluate).fault? = (script.failure evaluate below).map Failure.passed := by
  induction script with
  | finish outcome =>
    cases outcome with
    | ok a => rfl
    | error fault =>
      show some fault = some (fault.orLine none)
      rw [Fault.orLine, Option.or_none]
  | tell faults steps rest ih => exact ih
  | evaluate scope e rest ih =>
    have hanswer := h scope e
    unfold Run.fault? at hanswer
    rw [run, Run.fault?_andThen, failure]
    cases hout : (evaluate scope e).outcome with
    | ok v => exact ih v
    | error fault =>
      rw [hout] at hanswer
      exact hanswer

/-- A fault has no line if the script fails without one or an evaluation raised it. -/
theorem failure_unplaced (line : Option Nat)
    (hbelow : ∀ scope e x, below scope e = some x → x.fault.line = none) {script : Script α}
    {x : Failure} (h : script.Speaks line ∨ x.path ≠ [])
    (hx : script.failure evaluate below = some x) : x.fault.line = none := by
  induction script with
  | finish outcome =>
    cases outcome with
    | ok a => cases hx
    | error fault =>
      cases hx
      exact h.elim id fun hpath => absurd rfl hpath
  | tell faults steps rest ih => exact ih (h.imp_left And.right) hx
  | evaluate scope e rest ih =>
    unfold failure at hx
    split at hx
    · exact ih _ (h.imp_left fun hspeaks => hspeaks _) hx
    · exact hbelow scope e x hx

end

/-! ### What a node says itself -/

variable {line : Option Nat}

theorem speaks_bind {x : Script α} {f : α → Script β} (hx : x.Speaks line)
    (hf : ∀ a, (f a).Speaks line) : (x >>= f).Speaks line := by
  show (x.andThen f).Speaks line
  induction x with
  | finish outcome =>
    cases outcome with
    | ok a => exact hf a
    | error fault => exact hx
  | tell faults steps rest ih => exact ⟨hx.1, ih hx.2⟩
  | evaluate scope e rest ih => exact fun v => ih v (hx v)

theorem speaks_pure (a : α) : (pure a : Script α).Speaks line := trivial

theorem speaks_ask (scope : Scope) (e : Expr Mark) : (ask scope e).Speaks line :=
  fun v => speaks_pure v

theorem speaks_wrong (error : EvalError) : (ofRun (.wrong error) : Script α).Speaks line :=
  ⟨fun _ h => absurd h List.not_mem_nil, rfl⟩

theorem speaks_ofExcept (x : Except EvalError α) : (ofRun (.ofExcept x)).Speaks line := by
  cases x with
  | ok a => exact ⟨fun _ h => absurd h List.not_mem_nil, trivial⟩
  | error error => exact speaks_wrong error

theorem speaks_recover (r : Recovered) : (ofRun (.recover line r)).Speaks line := by
  refine ⟨fun fault hfault => ?_, trivial⟩
  obtain ⟨error, -, rfl⟩ := List.mem_map.mp hfault
  exact Option.or_none

/-- Steps are no faults, and a value is none either. -/
theorem speaks_traced (s : Step) (a : α) :
    (trace s >>= fun _ => pure a : Script α).Speaks line :=
  ⟨fun _ h => absurd h List.not_mem_nil, trivial⟩

theorem speaks_askAll (scope : Scope) (es : List (Expr Mark)) :
    (askAll scope es).Speaks line := by
  induction es with
  | nil => exact speaks_pure _
  | cons e es ih =>
    refine speaks_bind (speaks_ask scope e) fun v => ?_
    exact speaks_bind ih fun vs => speaks_pure _

theorem speaks_call (rules : Rulebook) (name : String) (arguments : List Value) :
    (call rules name arguments).Speaks line := by
  unfold call
  split
  · exact speaks_wrong _
  · exact speaks_bind (speaks_ofExcept _) fun scope => speaks_ask scope _

theorem speaks_evalNamed (rules : Rulebook) (scope : Scope) (arguments : List Value) :
    (evalNamed rules scope arguments).Speaks line := by
  unfold evalNamed
  split
  · exact speaks_pure _
  · split
    · exact speaks_ask scope _
    · exact speaks_pure _
  · exact speaks_pure _

theorem speaks_apply (rules : Rulebook) (scope : Scope) (name : String)
    (arguments : List Value) : (apply rules scope line name arguments).Speaks line := by
  unfold apply
  split
  · exact speaks_pure _
  · split
    · exact speaks_recover _
    · split
      · exact speaks_evalNamed rules scope arguments
      · exact speaks_call rules name arguments

theorem speaks_connect (op : Connective) (left : Value) (scope : Scope) (right : Expr Mark) :
    (connect op left scope right).Speaks line := by
  have hright : ∀ f : Value → Value, (ask scope right >>= fun v => pure (f v)).Speaks line :=
    fun f => speaks_bind (speaks_ask scope right) fun v => speaks_pure _
  unfold connect
  cases op with
  | and =>
    simp only
    split
    · exact hright _
    · exact speaks_pure _
  | or =>
    simp only
    split
    · exact speaks_pure _
    · exact hright _
  | implies =>
    simp only
    split
    · exact speaks_ask scope right
    · exact speaks_pure _
  | iff => exact hright _

/-- A node raises its fault without a line, and what it recovers from is at its own. -/
theorem speaks_node (rules : Rulebook) (scope : Scope) (e : Expr Mark) :
    (node rules scope e).Speaks e.mark.line := by
  cases e with
  | literal m v => exact speaks_pure v
  | reference m name => exact speaks_traced _ _
  | arithmetic m op left right | comparison m op left right =>
    refine speaks_bind (speaks_ask scope left) fun l => ?_
    refine speaks_bind (speaks_ask scope right) fun r => ?_
    exact speaks_bind (speaks_ofExcept _) fun v => speaks_traced _ _
  | logical m op left right =>
    refine speaks_bind (speaks_ask scope left) fun l => ?_
    exact speaks_bind (speaks_connect op l scope right) fun v => speaks_traced _ _
  | sets m op left right | membership m left right =>
    refine speaks_bind (speaks_ask scope left) fun l => ?_
    refine speaks_bind (speaks_ask scope right) fun r => ?_
    exact speaks_bind (speaks_recover _) fun v => speaks_traced _ _
  | negation m operand =>
    refine speaks_bind (speaks_ask scope operand) fun v => ?_
    exact speaks_bind (speaks_ofExcept _) fun v => speaks_traced _ _
  | complement m operand =>
    exact speaks_bind (speaks_ask scope operand) fun v => speaks_traced _ _
  | call m name arguments =>
    refine speaks_bind (speaks_askAll scope arguments) fun vs => ?_
    exact speaks_bind (speaks_apply rules scope name vs) fun v => speaks_traced _ _

end Script

/-! ### Evaluations that fail -/

namespace Expr

variable (rules : Rulebook) (limit : Nat)

/-- How the evaluation of an expression with so many levels left fails, if it does. -/
def failureAt : Nat → Scope → Expr Mark → Option Failure
  | 0, _, e => some ⟨[e], .of (.evaluation (.tooDeep limit))⟩
  | levels + 1, scope, e =>
    ((Script.node rules scope e).failure (evaluateAt rules limit levels)
      (failureAt levels)).map (·.within e)

/-- An evaluation fails with the line of the innermost expression that has one. -/
theorem fault?_evaluateAt (levels : Nat) (scope : Scope) (e : Expr Mark) :
    (evaluateAt rules limit levels scope e).fault? =
      (failureAt rules limit levels scope e).map Failure.passed := by
  induction levels generalizing scope e with
  | zero =>
    have hline : Failure.line ⟨[e], .of (.evaluation (.tooDeep limit))⟩ = e.mark.line := by
      unfold Failure.line
      rw [List.findSome?_singleton]
    show some _ = some _
    rw [Failure.passed, hline, depthFault, Fault.orLine, Fault.atLine]
    cases e.mark.line <;> rfl
  | succ levels ih =>
    rw [evaluateAt, failureAt, Run.fault?_orLine, ← Script.run_node,
      Script.fault?_run fun scope e => ih scope e, Option.map_map, Option.map_map]
    congr 1
    funext x
    exact (x.passed_within e).symm

/-- Faults are raised without a line. -/
theorem failureAt_unplaced {levels : Nat} {scope : Scope} {e : Expr Mark} {x : Failure}
    (h : failureAt rules limit levels scope e = some x) : x.fault.line = none := by
  induction levels generalizing scope e x with
  | zero =>
    cases h
    rfl
  | succ levels ih =>
    obtain ⟨inner, hinner, rfl⟩ := Option.map_eq_some_iff.mp h
    have hnode := Script.speaks_node rules scope e
    have hfault : inner.fault.line = none :=
      Script.failure_unplaced e.mark.line (fun _ _ _ => ih) (.inl hnode) hinner
    exact hfault

end Expr

namespace Program

/-- How the script of a construct or a constraint fails, if it does. -/
def failure (p : Program) {α : Type} (script : Script α) : Option Failure :=
  script.failure p.evaluate (Expr.failureAt p.rules p.limits.evaluation p.limits.evaluation)

theorem fault?_run (p : Program) {α : Type} (script : Script α) :
    (script.run p.evaluate).fault? = (p.failure script).map Failure.passed :=
  Script.fault?_run (Expr.fault?_evaluateAt p.rules p.limits.evaluation _) script

end Program

namespace Session

/-- From `s` to `t` a run of the script is taken in, for an element or a constraint at a line. It
fails as the script does, and where it fails within evaluations, that is what is reported behind the
faults it went on from. -/
structure ReportsFailure (p : Program) {α : Type} (script : Script α) (line : Option Nat)
    (r : Run α) (s t : Session) : Prop where
  fault : r.fault? = (p.failure script).map Failure.passed
  reported : ∀ x, p.failure script = some x → x.path ≠ [] →
    t.faults = s.faults ++ r.faults ++ [x.reported line]

theorem ReportsFailure.ofGains {p : Program} {α : Type} {script : Script α} {line : Option Nat}
    {f : Frame} {s t : Session} {writes : List (String × Value)}
    (h : Gains f s t ((script.run p.evaluate).reported line) writes) :
    ReportsFailure p script line (script.run p.evaluate) s t := by
  refine ⟨p.fault?_run script, fun x hx hpath => ?_⟩
  have hfault : (script.run p.evaluate).fault? = some x.passed := by
    rw [p.fault?_run, hx]
    rfl
  have hline : x.fault.line = none := Script.failure_unplaced none
    (fun _ _ _ => Expr.failureAt_unplaced p.rules p.limits.evaluation) (.inr hpath) hx
  rw [h.faults, Run.reported_of_fault? hfault, Failure.atLine_passed hline, List.append_assoc]

/-- A failure is reported at the line of the element or constraint that it ends, and at the line of
the innermost expression where that has none. Faults that are recovered from are always at the line
of the expression that raised them. -/
theorem failure_lines (p : Program) (s : Session) :
    (∀ scope e, (Script.node p.rules scope e).Speaks e.mark.line) ∧
    (∀ f e, Role.ofTag e.tag = .query →
      ReportsFailure p (Script.query p f e) e.line (Construct.query p f e) s (visit p f s e)) ∧
    (∀ f e universal, Role.ofTag e.tag = .quantifier universal →
      ReportsFailure p (Script.quantifier p f universal e) e.line
        (Construct.quantifier p f universal e) s (visit p f s e)) ∧
    (∀ f e, Role.ofTag e.tag = .assertion →
      ReportsFailure p (Script.assertion p f e) e.line (Construct.assertion p f e) s
        (visit p f s e)) ∧
    (∀ name r, p.rules.get? name = some r →
      ReportsFailure p (Script.constraint r) r.line (Construct.constraint p r) s
        (s.checkConstraints p [name])) := by
  refine ⟨Script.speaks_node p.rules, fun f e hrole => ?_, fun f e universal hrole => ?_,
    fun f e hrole => ?_, fun name r hget => ?_⟩
  · have hgains := Gains.query p f s e
    rw [← Script.run_query] at hgains
    rw [visit_query p f s hrole, ← Script.run_query]
    exact .ofGains hgains
  · rw [visit_quantifier p f s hrole, ← Script.run_quantifier]
    exact .ofGains ((Gains.nameOf f s e).trans (.conclude f _ _ e.line _))
  · rw [visit_assertion p f s hrole, ← Script.run_assertion]
    exact .ofGains (.absorb f s e.line _)
  · have hcheck : s.checkConstraints p [name] = s.absorb r.line (Construct.constraint p r) := by
      unfold checkConstraints
      rw [List.filterMap_cons, hget]
      rfl
    rw [hcheck, ← Script.run_constraint]
    exact .ofGains (.absorb (.ofDocument (.ofTable ∅) none) s r.line _)

/-- A query of two rules, of which the second is reached through the first and fails. -/
def failingQuery (line : Option Nat) : Element :=
  { (Element.leaf "query").setAttribute "expr" "f()" with line }

/-- The second of the rules is the only one with a line. -/
def failingDocument (query : Element) : Element :=
  let f := ((Element.leaf "function").setAttribute "name" "f").setAttribute "body" "eval(g)"
  let g := ((Element.leaf "rule").setAttribute "name" "g").setAttribute "body" "-('a' in true)"
  let rules := (Element.leaf "rules").addChildren [f, { g with line := some 3 }]
  (Element.leaf "tenet").addChildren [rules, query]

/-- Without a line of the query, what `in` goes on from and what the negation fails with are both
reported at the line of the rule. -/
theorem failure_lines_through_rules :
    let engine : Engine := { library := .ofDocuments ∅ }
    let query := failingQuery none
    let p := engine.program (engine.linkChecked (failingDocument query) none)
    let f := Frame.ofDocument p.symbols.scope none
    ∃ x, p.failure (Script.query p f query) = some x ∧
      x.path.map (fun e => e.mark.line) = [some 3, none, none] ∧
      (visit p f {} query).faults = (Construct.query p f query).faults ++ [x.reported none] ∧
      (visit p f {} query).faults.map Fault.line = [some 3, some 3] := by
  intro engine query p f
  have hpath : (p.failure (Script.query p f query)).map
      (fun x => x.path.map fun e => e.mark.line) = some [some 3, none, none] := by decide +kernel
  obtain ⟨x, hx, hlines⟩ := Option.map_eq_some_iff.mp hpath
  have hne : x.path ≠ [] := by
    rintro hnil
    rw [hnil] at hlines
    cases hlines
  have hreported := ((failure_lines p {}).2.1 f query (by decide)).reported x hx hne
  exact ⟨x, hx, hlines, hreported, by decide +kernel⟩

/-- The expression that fails is at line 3, and so is what `in` goes on from in it; but the failure
is reported at the line of the query. -/
theorem failure_at_line_of_query :
    let engine : Engine := { library := .ofDocuments ∅ }
    let query := failingQuery (some 12)
    let root := failingDocument query
    let p := engine.program (engine.linkChecked root none)
    let f := Frame.ofDocument p.symbols.scope none
    (p.failure (Script.query p f query)).map (fun x => (x.path.map fun e => e.mark.line, x.line)) =
      some ([some 3, none, some 12], some 3) ∧
    (engine.evaluate (some root) none).faults.map (fun fault => (fault.message, fault.line)) =
      [("'in' expects a set, list or string, got boolean", some 3),
        ("Cannot negate boolean", some 12)] := by
  decide +kernel

end Session

end Premise
