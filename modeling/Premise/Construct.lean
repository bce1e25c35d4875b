import Premise.Aggregate
import Premise.Construct.Frame
import Premise.Symbol.Override

/-!
The constructs of a document: queries, quantifiers, aggregates, assertions, constraints and the
overrides of branches. A construct is a run; recording what comes of it is left to the session.
-/

namespace Premise.Construct

/-- Fails because an element is not what it should be. -/
def wrong {α : Type} (e : ConstructError) : Run α := .fail (.of (.construct e))

/-- The value a chain of rules makes of its target. -/
def chainQuery (p : Program) (f : Frame) (e : Element) (rules : String) : Run Value :=
  match e.trimmed? "target" with
  | none => wrong .chainWithoutTarget
  | some target =>
    let start := (f.lookup? target).getD (.text (Name.qualify f.space target))
    p.chain f.scope start ((Text.entries rules).map (Name.qualify f.space))

/-- The value of a query: that of its chain, or else of its expression. Sets become lists. -/
def query (p : Program) (f : Frame) (e : Element) : Run Value := do
  let v ← match e.attribute? "chain" with
    | some rules => chainQuery p f e rules
    | none =>
      match e.attributeOrContent? ["expr"] with
      | none => wrong .queryWithoutExpression
      | some text => do
        let expression ← f.parse p e.line text
        p.evaluate f.scope expression
  .value v.materialized

def countMatches (p : Program) (f : Frame) (condition : Expr Mark) : List Value → Run Nat
  | [] => .value 0
  | item :: items => do
    let v ← p.evaluate (f.scope.bind Name.item item) condition
    let n ← countMatches p f condition items
    .value (if v.isTruthy then n + 1 else n)

/-- The value of `exists` and `forall`: whether the condition holds for some or for all elements of
the target, and with the flag `count` also for how many. -/
def quantifier (p : Program) (f : Frame) (universal : Bool) (e : Element) : Run Value :=
  match e.trimmed? "target" with
  | none => wrong (.quantifierWithoutTarget e.tag)
  | some target =>
    match e.attributeOrContent? ["condition"] with
    | none => wrong (.quantifierWithoutCondition e.tag)
    | some text => do
      let items ← f.collection target e.tag
      let condition ← f.parse p e.line text
      let matched ← countMatches p f condition items
      let holds := if universal then matched == items.length else 0 < matched
      Run.trace (.quantifier e.tag target matched items.length)
      .value (if e.flag "count" then
          .ofFields [("result", .boolean holds), ("count", .number (.ofNat matched))]
        else .boolean holds)

/-- The value of an `aggregate` over the numbers in its target; NaN is none. -/
def aggregate (f : Frame) (e : Element) : Run Value :=
  let name := (e.trimmed? "function").getD ""
  match Aggregate.ofName? name with
  | none => wrong (.unknownAggregate name)
  | some a =>
    match e.trimmed? "target" with
    | none => wrong .aggregateWithoutTarget
    | some target => do
      let items ← f.collection target "aggregate"
      let numbers := (items.filterMap Value.number?).filter fun x => !x.isNaN
      if numbers.isEmpty then .wrong (.noNumbers a.name target)
      else do
        let v := .number (a.apply numbers)
        Run.trace (.binding (a.name ++ "(" ++ target ++ ")") v)
        .value v

/-- Checks an `assert` against the scope the document was entered with. -/
def assertion (p : Program) (f : Frame) (e : Element) : Run Unit :=
  match e.attributeOrContent? ["expr"] with
  | none => wrong .assertionWithoutExpression
  | some text => do
    let expression ← f.parse p e.line text
    let v ← p.evaluate f.base expression
    if v.isTruthy then .value ()
    else .wrong (.assertionFailed ((e.attribute? "message").getD text))

/-- Checks a constraint: only an error value counts against it. -/
def constraint (p : Program) (r : Rule) : Run Unit := do
  let v ← p.evaluate r.scope r.body
  match v with
  | .error message => .wrong (.reported message)
  | _ => .value ()

/-- Reads one override of a branch, by the shape of the symbol it replaces. -/
def override (p : Program) (f : Frame) (written : String) :
    Except ConstructError (String × Value) :=
  match Text.keyed? written with
  | none => .error (.malformedOverride written)
  | some (name, raw) =>
    let qualified := Name.qualify f.space name
    let expected := ((p.symbols.get? qualified).map Symbol.shape).getD .any
    match Symbol.override expected f.lookup? raw with
    | .ok v => .ok (qualified, v)
    | .error error => .error (.override name error)

/-- The overrides in the `if` attribute of a branch; malformed ones are left out and reported. -/
def overrides (p : Program) (f : Frame) (e : Element) : List (String × Value) × List Fault :=
  let read := (Text.entries ((e.attribute? "if").getD "")).map (override p f)
  (read.filterMap Except.toOption,
    read.filterMap fun
      | .ok _ => none
      | .error error => some ((Fault.of (.construct error)).atLine e.line))

end Premise.Construct
