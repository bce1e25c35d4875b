import Premise.Construct

/-!
What is done between evaluations.

`evaluateNode` and the constructs of a document are given an evaluator, and they pass on its
failures. A script is what they do without it: it asks for the value of an expression and goes on
with the answer, if there is one. Running the script with an evaluator is what they do with that
evaluator (`run_node`, `run_query` and so on), so the script shows which evaluations are started,
and in which order, however they turn out.
-/

namespace Premise

inductive Script (α : Type) where
  | finish (outcome : Except Fault α)
  | tell (faults : List Fault) (steps : List Step) (rest : Script α)
  /-- asks for the value of an expression, and goes on with it; a failure ends the script -/
  | evaluate (scope : Scope) (e : Expr Mark) (rest : Value → Script α)

namespace Script

variable {α β : Type}

def andThen (x : Script α) (f : α → Script β) : Script β :=
  match x with
  | .finish (.ok a) => f a
  | .finish (.error fault) => .finish (.error fault)
  | .tell faults steps rest => .tell faults steps (rest.andThen f)
  | .evaluate scope e rest => .evaluate scope e fun v => (rest v).andThen f

instance : Monad Script where
  pure a := .finish (.ok a)
  bind := andThen

/-- Does what the run does, without asking for anything. -/
def ofRun (r : Run α) : Script α := .tell r.faults r.steps (.finish r.outcome)

def trace (s : Step) : Script Unit := .tell [] [s] (.finish (.ok ()))

def ask (scope : Scope) (e : Expr Mark) : Script Value := .evaluate scope e pure

/-- The run that comes of the script where this evaluator answers. -/
def run (evaluate : Evaluator) : Script α → Run α
  | .finish outcome => ⟨outcome, [], []⟩
  | .tell faults steps rest => (rest.run evaluate).after faults steps
  | .evaluate scope e rest => evaluate scope e >>= fun v => (rest v).run evaluate

end Script

namespace Run

variable {α β γ : Type}

theorem andThen_after (r : Run α) (faults : List Fault) (steps : List Step) (f : α → Run β) :
    (r.after faults steps >>= f) = (r >>= f).after faults steps := by
  show (r.after faults steps).andThen f = (r.andThen f).after faults steps
  cases hout : r.outcome with
  | error fault => simp only [andThen, after, hout]
  | ok a => simp only [andThen, after, hout, List.append_assoc]

theorem andThen_assoc (r : Run α) (f : α → Run β) (g : β → Run γ) :
    (r >>= f >>= g) = r >>= fun a => f a >>= g := by
  show (r.andThen f >>= g) = r.andThen fun a => f a >>= g
  cases hout : r.outcome with
  | error fault =>
    simp only [andThen, hout]
    rfl
  | ok a =>
    simp only [andThen, hout]
    exact andThen_after (f a) r.faults r.steps g

end Run

namespace Script

variable {α β : Type} (evaluate : Evaluator)

theorem run_bind (x : Script α) (f : α → Script β) :
    (x >>= f).run evaluate = x.run evaluate >>= fun a => (f a).run evaluate := by
  show (x.andThen f).run evaluate = _
  induction x with
  | finish outcome => cases outcome <;> rfl
  | tell faults steps rest ih =>
    simp only [andThen, run, ih]
    exact (Run.andThen_after _ faults steps _).symm
  | evaluate scope e rest ih =>
    simp only [andThen, run, ih]
    exact (Run.andThen_assoc _ _ _).symm

@[simp] theorem run_pure (a : α) : (pure a : Script α).run evaluate = .value a := rfl

@[simp] theorem run_ofRun (r : Run α) : (ofRun r).run evaluate = r := by
  show (⟨r.outcome, r.faults ++ [], r.steps ++ []⟩ : Run α) = r
  rw [List.append_nil, List.append_nil]

@[simp] theorem run_trace (s : Step) : (trace s).run evaluate = Run.trace s := rfl

@[simp] theorem run_ask (scope : Scope) (e : Expr Mark) :
    (ask scope e).run evaluate = evaluate scope e := by
  show (evaluate scope e).andThen Run.value = _
  cases hout : (evaluate scope e).outcome with
  | error fault =>
    simp only [Run.andThen, hout]
    rw [← hout]
  | ok v =>
    simp only [Run.andThen, hout, Run.after, Run.value, List.append_nil]
    rw [← hout]

/-! ### Nodes -/

def call (rules : Rulebook) (name : String) (arguments : List Value) : Script Value :=
  match rules.get? name with
  | none => ofRun (.wrong (.unknownFunction name))
  | some r => do
    let scope ← ofRun (.ofExcept (r.callScope arguments))
    ask scope r.body

def evalNamed (rules : Rulebook) (scope : Scope) : List Value → Script Value
  | [] => pure .null
  | .text name :: _ =>
    match rules.get? name with
    | some r => ask scope r.body
    | none => pure (.text name)
  | v :: _ => pure v

def apply (rules : Rulebook) (scope : Scope) (line : Option Nat) (name : String)
    (arguments : List Value) : Script Value :=
  if name = "error" then pure (Value.errorOf arguments)
  else if name = "path" then ofRun (.recover line (Value.pathOf arguments))
  else if name = "eval" then evalNamed rules scope arguments
  else call rules name arguments

def connect (op : Connective) (left : Value) (scope : Scope) (right : Expr Mark) : Script Value :=
  match op with
  | .and =>
    if left.isTruthy then do
      let r ← ask scope right
      pure (.boolean r.isTruthy)
    else pure (.boolean false)
  | .or =>
    if left.isTruthy then pure (.boolean true)
    else do
      let r ← ask scope right
      pure (.boolean r.isTruthy)
  | .implies => if left.isTruthy then ask scope right else pure (.boolean true)
  | .iff => do
    let r ← ask scope right
    pure (.boolean (left.isTruthy == r.isTruthy))

def askAll (scope : Scope) : List (Expr Mark) → Script (List Value)
  | [] => pure []
  | e :: es => do
    let v ← ask scope e
    let vs ← askAll scope es
    pure (v :: vs)

/-- What a node does besides the evaluations a level below. -/
def node (rules : Rulebook) (scope : Scope) : Expr Mark → Script Value
  | .literal _ v => pure v
  | .reference _ name => do
    let v := (scope.get? name).getD (.text name)
    trace (.binding name v)
    pure v
  | .arithmetic _ op left right => do
    let l ← ask scope left
    let r ← ask scope right
    let v ← ofRun (.ofExcept (Value.arithmetic op l r))
    trace (.between l op.symbol r v)
    pure v
  | .comparison _ op left right => do
    let l ← ask scope left
    let r ← ask scope right
    let v ← ofRun (.ofExcept (Value.comparison op l r))
    trace (.between l op.symbol r v)
    pure v
  | .logical _ op left right => do
    let l ← ask scope left
    let v ← connect op l scope right
    trace (.connective l op v)
    pure v
  | .sets m op left right => do
    let l ← ask scope left
    let r ← ask scope right
    let v ← ofRun (.recover m.line (Value.setOperation op l r))
    trace (.between l op.symbol r v)
    pure v
  | .membership m element collection => do
    let l ← ask scope element
    let r ← ask scope collection
    let v ← ofRun (.recover m.line (Value.membership l r))
    trace (.between l "in" r v)
    pure v
  | .negation _ operand => do
    let operand ← ask scope operand
    let v ← ofRun (.ofExcept operand.negate)
    trace (.unary "-" operand v)
    pure v
  | .complement _ operand => do
    let operand ← ask scope operand
    let v := .boolean (!operand.isTruthy)
    trace (.unary "!" operand v)
    pure v
  | .call m name arguments => do
    let arguments ← askAll scope arguments
    let v ← apply rules scope m.line name arguments
    trace (.call name arguments v)
    pure v

theorem run_call (rules : Rulebook) (name : String) (arguments : List Value) :
    (call rules name arguments).run evaluate = rules.call evaluate name arguments := by
  unfold call Rulebook.call
  cases rules.get? name with
  | none => exact run_ofRun evaluate _
  | some r => simp only [run_bind, run_ofRun, run_ask]

theorem run_evalNamed (rules : Rulebook) (scope : Scope) (arguments : List Value) :
    (evalNamed rules scope arguments).run evaluate =
      rules.evalNamed evaluate scope arguments := by
  cases arguments with
  | nil => rfl
  | cons v vs =>
    cases v with
    | text name =>
      simp only [evalNamed, Rulebook.evalNamed]
      cases rules.get? name with
      | none => rfl
      | some r => exact run_ask evaluate scope r.body
    | _ => rfl

theorem run_apply (rules : Rulebook) (scope : Scope) (line : Option Nat) (name : String)
    (arguments : List Value) : (apply rules scope line name arguments).run evaluate =
      Expr.apply rules evaluate scope line name arguments := by
  unfold apply Expr.apply
  split
  · rfl
  · split
    · exact run_ofRun evaluate _
    · split
      · exact run_evalNamed evaluate rules scope arguments
      · exact run_call evaluate rules name arguments

theorem run_connect (op : Connective) (left : Value) (scope : Scope) (right : Expr Mark) :
    (connect op left scope right).run evaluate =
      Expr.connect op left fun _ => evaluate scope right := by
  cases op with
  | and | or | implies =>
    simp only [connect, Expr.connect]
    split <;> simp only [run_bind, run_ask, run_pure]
  | iff => simp only [connect, Expr.connect, run_bind, run_ask, run_pure]

theorem run_askAll (scope : Scope) (es : List (Expr Mark)) :
    (askAll scope es).run evaluate = Expr.evaluateAll evaluate scope es := by
  induction es with
  | nil => rfl
  | cons e es ih => simp only [askAll, Expr.evaluateAll, run_bind, run_ask, run_pure, ih]

theorem run_node (rules : Rulebook) (scope : Scope) (e : Expr Mark) :
    (node rules scope e).run evaluate = Expr.evaluateNode rules evaluate scope e := by
  cases e with
  | literal m v | reference m name => rfl
  | arithmetic m op left right | comparison m op left right | sets m op left right
  | membership m left right | negation m operand | complement m operand =>
    simp only [node, Expr.evaluateNode, run_bind, run_ask, run_ofRun, run_trace, run_pure]
  | logical m op left right =>
    simp only [node, Expr.evaluateNode, run_bind, run_ask, run_connect, run_trace, run_pure]
  | call m name arguments =>
    simp only [node, Expr.evaluateNode, run_bind, run_askAll, run_apply, run_trace, run_pure]

/-! ### Constructs -/

variable (p : Program) (f : Frame)

def chain (scope : Scope) (current : Value) : List String → Script Value
  | [] => pure current
  | name :: names =>
    match p.rules.get? name with
    | none => ofRun (.wrong (.unknownRule name))
    | some r => do
      let next ← ask (r.chainScope scope current) r.body
      trace (.chain name current next)
      chain scope next names

def chainQuery (e : Element) (rules : String) : Script Value :=
  match e.trimmed? "target" with
  | none => ofRun (Construct.wrong .chainWithoutTarget)
  | some target =>
    let start := (f.lookup? target).getD (.text (Name.qualify f.space target))
    chain p f.scope start ((Text.entries rules).map (Name.qualify f.space))

def query (e : Element) : Script Value := do
  let v ← match e.attribute? "chain" with
    | some rules => chainQuery p f e rules
    | none =>
      match e.attributeOrContent? ["expr"] with
      | none => ofRun (Construct.wrong .queryWithoutExpression)
      | some text => do
        let expression ← ofRun (f.parse p e.line text)
        ask f.scope expression
  pure v.materialized

def countMatches (condition : Expr Mark) : List Value → Script Nat
  | [] => pure 0
  | item :: items => do
    let v ← ask (f.scope.bind Name.item item) condition
    let n ← countMatches condition items
    pure (if v.isTruthy then n + 1 else n)

def quantifier (universal : Bool) (e : Element) : Script Value :=
  match e.trimmed? "target" with
  | none => ofRun (Construct.wrong (.quantifierWithoutTarget e.tag))
  | some target =>
    match e.attributeOrContent? ["condition"] with
    | none => ofRun (Construct.wrong (.quantifierWithoutCondition e.tag))
    | some text => do
      let items ← ofRun (f.collection target e.tag)
      let condition ← ofRun (f.parse p e.line text)
      let matched ← countMatches f condition items
      let holds := if universal then matched == items.length else 0 < matched
      trace (.quantifier e.tag target matched items.length)
      pure (if e.flag "count" then
          .ofFields [("result", .boolean holds), ("count", .number (Number.ofNat matched))]
        else .boolean holds)

def assertion (e : Element) : Script Unit :=
  match e.attributeOrContent? ["expr"] with
  | none => ofRun (Construct.wrong .assertionWithoutExpression)
  | some text => do
    let expression ← ofRun (f.parse p e.line text)
    let v ← ask f.base expression
    if v.isTruthy then pure ()
    else ofRun (.wrong (.assertionFailed ((e.attribute? "message").getD text)))

def constraint (r : Rule) : Script Unit := do
  let v ← ask r.scope r.body
  match v with
  | .error message => ofRun (.wrong (.reported message))
  | _ => pure ()

theorem run_chain (scope : Scope) (current : Value) (names : List String) :
    (chain p scope current names).run evaluate =
      p.rules.chain evaluate scope current names := by
  induction names generalizing current with
  | nil => rfl
  | cons name names ih =>
    unfold chain Rulebook.chain
    cases p.rules.get? name with
    | none => exact run_ofRun evaluate _
    | some r => simp only [run_bind, run_ask, run_trace, ih]

theorem run_chainQuery (e : Element) (rules : String) :
    (chainQuery p f e rules).run p.evaluate = Construct.chainQuery p f e rules := by
  unfold chainQuery Construct.chainQuery
  cases e.trimmed? "target" with
  | none => exact run_ofRun _ _
  | some target => exact run_chain p.evaluate p f.scope _ _

theorem run_query (e : Element) : (query p f e).run p.evaluate = Construct.query p f e := by
  unfold query Construct.query
  cases e.attribute? "chain" with
  | some rules => simp only [run_bind, run_chainQuery, run_pure]
  | none =>
    cases e.attributeOrContent? ["expr"] with
    | none => simp only [run_bind, run_ofRun, run_pure]
    | some text => simp only [run_bind, run_ofRun, run_ask, run_pure]

theorem run_countMatches (condition : Expr Mark) (items : List Value) :
    (countMatches f condition items).run p.evaluate =
      Construct.countMatches p f condition items := by
  induction items with
  | nil => rfl
  | cons item items ih =>
    simp only [countMatches, Construct.countMatches, run_bind, run_ask, run_pure, ih]

theorem run_quantifier (universal : Bool) (e : Element) :
    (quantifier p f universal e).run p.evaluate = Construct.quantifier p f universal e := by
  unfold quantifier Construct.quantifier
  cases e.trimmed? "target" with
  | none => exact run_ofRun _ _
  | some target =>
    cases e.attributeOrContent? ["condition"] with
    | none => exact run_ofRun _ _
    | some text =>
      simp only [run_bind, run_ofRun, run_countMatches, run_trace, run_pure]

theorem run_assertion (e : Element) :
    (assertion p f e).run p.evaluate = Construct.assertion p f e := by
  unfold assertion Construct.assertion
  cases e.attributeOrContent? ["expr"] with
  | none => exact run_ofRun _ _
  | some text =>
    simp only [run_bind, run_ofRun, run_ask, apply_ite (run p.evaluate), run_pure]

theorem run_constraint (r : Rule) :
    (constraint r).run p.evaluate = Construct.constraint p r := by
  unfold constraint Construct.constraint
  rw [run_bind, run_ask]
  congr 1
  funext v
  cases v with
  | error message => exact run_ofRun _ _
  | _ => rfl

end Script

end Premise
