import Premise.Proofs.CallText
import Premise.Proofs.DepthLimit
import Premise.Proofs.Failure
import Premise.Proofs.Inlining
import Premise.Proofs.Substitution

/-!
The ways to run a rule.

A rule can be evaluated by its name, called, or applied to a target by a chain. By its name it is
evaluated in the scope of the caller, in a call in the scope that it keeps, with the argument laid
over it, and in a chain in the scope of the caller again, with the value so far laid over it as the
first parameter and as the current element. At the top level of a document without imports the scope
of the caller is the one that the rules keep, so nothing but the current element can tell these ways
apart (`Engine.invocations_match`). In a call the body is evaluated one level deeper than in a
chain, which matters only where a level is missing.
-/

namespace Premise

namespace Fault

/-- The fault wherever it is reported. -/
def unplaced (f : Fault) : Fault := { f with line := none }

theorem unplaced_atLine (f : Fault) (line : Option Nat) : (f.atLine line).unplaced = f.unplaced :=
  rfl

end Fault

namespace Run

variable {α β : Type} {r r' r'' : Run α}

/-- Runs that have the same value, or fail with the same fault if perhaps at other lines. -/
def EndsAlike (r r' : Run α) : Prop :=
  r.outcome.mapError Fault.unplaced = r'.outcome.mapError Fault.unplaced

/-- Runs that have the same value, or fail with the same fault if perhaps at other lines, and report
the same faults on the way. -/
structure Matches (r r' : Run α) : Prop where
  outcome : r.outcome.mapError Fault.unplaced = r'.outcome.mapError Fault.unplaced
  faults : r.faults = r'.faults

/-- The run does not fail for want of a level. -/
def WithinDepth (limit : Nat) (r : Run α) : Prop :=
  ∀ fault ∈ r.fault?, fault.cause ≠ .evaluation (.tooDeep limit)

instance (limit : Nat) (r : Run α) : Decidable (r.WithinDepth limit) :=
  inferInstanceAs (Decidable (∀ fault ∈ r.fault?, fault.cause ≠ .evaluation (.tooDeep limit)))

namespace EndsAlike

theorem cases (h : r.EndsAlike r') :
    (∃ a, r.outcome = .ok a ∧ r'.outcome = .ok a) ∨
      ∃ fault fault', r.outcome = .error fault ∧ r'.outcome = .error fault' ∧
        fault.unplaced = fault'.unplaced := by
  unfold EndsAlike at h
  cases hr : r.outcome with
  | ok a =>
    cases hr' : r'.outcome with
    | ok a' =>
      rw [hr, hr'] at h
      cases h
      exact .inl ⟨a, rfl, rfl⟩
    | error fault' =>
      rw [hr, hr'] at h
      cases h
  | error fault =>
    cases hr' : r'.outcome with
    | ok a' =>
      rw [hr, hr'] at h
      cases h
    | error fault' =>
      rw [hr, hr'] at h
      exact .inr ⟨fault, fault', rfl, rfl, Except.error.inj h⟩

theorem bind {f f' : α → Run β} (h : r.EndsAlike r') (k : ∀ a, (f a).EndsAlike (f' a)) :
    (r >>= f).EndsAlike (r' >>= f') := by
  show (r.andThen f).EndsAlike (r'.andThen f')
  unfold andThen
  rcases h.cases with ⟨a, hr, hr'⟩ | ⟨fault, fault', hr, hr', hsame⟩
  · rw [hr, hr']
    exact k a
  · rw [hr, hr']
    exact congrArg Except.error hsame

/-- A line that is put on a failure makes no difference. -/
theorem of_orLine (r : Run α) (line : Option Nat) : (r.orLine line).EndsAlike r := by
  unfold EndsAlike Run.orLine
  cases r.outcome <;> rfl

theorem orLine (line line' : Option Nat) (h : r.EndsAlike r') :
    (r.orLine line).EndsAlike (r'.orLine line') :=
  (of_orLine r line).trans (Eq.trans h (of_orLine r' line').symm)

theorem withinDepth {limit : Nat} (h : r.EndsAlike r') (hwithin : r.WithinDepth limit) :
    r'.WithinDepth limit := by
  intro other hother
  have houtcome := fault?_eq_some.mp hother
  rcases h.cases with ⟨a, -, hr'⟩ | ⟨fault, fault', hr, hr', hsame⟩
  · rw [hr'] at houtcome
    cases houtcome
  · rw [hr'] at houtcome
    cases houtcome
    have hcause : fault.unplaced.cause = other.unplaced.cause := congrArg Fault.cause hsame
    have hne : fault.unplaced.cause ≠ .evaluation (.tooDeep limit) :=
      hwithin fault (fault?_eq_some.mpr hr)
    rw [hcause] at hne
    exact hne

end EndsAlike

namespace Matches

theorem refl (r : Run α) : r.Matches r := ⟨rfl, rfl⟩

theorem symm (h : r.Matches r') : r'.Matches r := ⟨h.outcome.symm, h.faults.symm⟩

theorem trans (h : r.Matches r') (k : r'.Matches r'') : r.Matches r'' :=
  ⟨h.outcome.trans k.outcome, h.faults.trans k.faults⟩

theorem cases (h : r.Matches r') :
    (∃ a, r.outcome = .ok a ∧ r'.outcome = .ok a) ∨
      ∃ fault fault', r.outcome = .error fault ∧ r'.outcome = .error fault' ∧
        fault.unplaced = fault'.unplaced := EndsAlike.cases h.outcome

theorem bind {f f' : α → Run β} (h : r.Matches r') (k : ∀ a, (f a).Matches (f' a)) :
    (r >>= f).Matches (r' >>= f') := by
  show (r.andThen f).Matches (r'.andThen f')
  unfold andThen
  rcases h.cases with ⟨a, hr, hr'⟩ | ⟨fault, fault', hr, hr', hsame⟩
  · rw [hr, hr']
    refine ⟨(k a).outcome, ?_⟩
    show r.faults ++ (f a).faults = r'.faults ++ (f' a).faults
    rw [h.faults, (k a).faults]
  · rw [hr, hr']
    exact ⟨congrArg Except.error hsame, h.faults⟩

theorem orLine (r : Run α) (line : Option Nat) : (r.orLine line).Matches r :=
  ⟨EndsAlike.of_orLine r line, rfl⟩

/-- A run that comes to a value, and reports nothing, goes on as if from the value. -/
theorem of_value {a : α} (h : r.Matches (.value a)) (f : α → Run β) : (r >>= f).Matches (f a) :=
  h.bind fun _ => .refl _

/-- Steps make no difference. -/
theorem traced (r : Run α) (step : α → Step) :
    (r >>= fun a => Run.trace (step a) >>= fun _ => .value a).Matches r := by
  show (r.andThen _).Matches r
  unfold andThen
  cases hr : r.outcome with
  | ok a => exact ⟨by rw [hr]; rfl, List.append_nil _⟩
  | error fault => exact ⟨by rw [hr], rfl⟩

theorem withinDepth {limit : Nat} (h : r.Matches r') (hwithin : r.WithinDepth limit) :
    r'.WithinDepth limit := EndsAlike.withinDepth h.outcome hwithin

end Matches

/-- A run that is gone on from fails where it does. -/
theorem WithinDepth.of_bind {limit : Nat} {f : α → Run β} (h : (r >>= f).WithinDepth limit) :
    r.WithinDepth limit := by
  intro fault hfault
  refine h fault ?_
  rw [Option.mem_def, fault?_andThen, fault?_eq_some.mp hfault]

/-- And what it is gone on with fails where it does. -/
theorem WithinDepth.of_ok {limit : Nat} {f : α → Run β} (h : (r >>= f).WithinDepth limit) {a : α}
    (hr : r.outcome = .ok a) : (f a).WithinDepth limit := by
  intro fault hfault
  refine h fault ?_
  rw [Option.mem_def, fault?_andThen, hr]
  exact hfault

end Run

/-! ### Calls -/

namespace Expr

variable {rules : Rulebook} {limit levels : Nat} {s : Scope} {m : Mark} {name : String}

/-- A name alone comes to what it stands for. -/
theorem evaluateAll_reference (m : Mark) (x : String) :
    (evaluateAll (evaluateAt rules limit (levels + 1)) s [.reference m x]).Matches
      (.value [(s.get? x).getD (.text x)]) := ⟨rfl, rfl⟩

/-- A call comes to what its function is applied to, once its arguments have their values. -/
theorem call_matches {arguments : List (Expr Mark)} {vs : List Value}
    (hvalues : (evaluateAll (evaluateAt rules limit levels) s arguments).Matches (.value vs)) :
    (evaluateAt rules limit (levels + 1) s (.call m name arguments)).Matches
      (apply rules (evaluateAt rules limit levels) s m.line name vs) := by
  rw [evaluateAt, evaluateNode]
  exact (Run.Matches.orLine _ _).trans ((hvalues.of_value _).trans (.traced _ _))

/-- A call of anything but a builtin is a call of a rule. -/
theorem apply_rule (h : name ∉ Name.builtins) (rules : Rulebook) (evaluate : Evaluator) (s : Scope)
    (line : Option Nat) (vs : List Value) :
    apply rules evaluate s line name vs = rules.call evaluate name vs := by
  have herror : name ≠ "error" := fun heq => h (heq ▸ by decide)
  have hpath : name ≠ "path" := fun heq => h (heq ▸ by decide)
  have heval : name ≠ "eval" := fun heq => h (heq ▸ by decide)
  unfold apply
  rw [if_neg herror, if_neg hpath, if_neg heval]

theorem apply_eval (rules : Rulebook) (evaluate : Evaluator) (s : Scope) (line : Option Nat)
    (vs : List Value) : apply rules evaluate s line "eval" vs = rules.evalNamed evaluate s vs := by
  unfold apply
  rw [if_neg (by decide), if_neg (by decide), if_pos rfl]

end Expr

/-! ### The three ways -/

namespace Rule

theorem callScope_of_no_parameter {r : Rule} (h : r.parameters = []) :
    r.callScope [] = .ok r.scope := by
  unfold callScope
  rw [h]
  rfl

theorem callScope_of_parameter {r : Rule} {q : Parameter} (h : r.parameters = [q])
    (hshape : q.shape = .any) (v : Value) : r.callScope [v] = .ok (r.scope.bind q.name v) := by
  have haccepts : q.shape.accepts v = true := by
    rw [hshape]
    rfl
  unfold callScope
  rw [h, bindings, if_pos haccepts]
  rfl

theorem chainScope_of_parameter {r : Rule} {q : Parameter} (h : r.parameters = [q]) (s : Scope)
    (v : Value) : r.chainScope s v = (s.bind Name.item v).bind q.name v := by
  unfold chainScope
  rw [h]

end Rule

namespace Expr

variable {rules : Rulebook} {limit levels : Nat} {s : Scope} {r : Rule}

/-- Where no rule mentions the current element, no body can tell whether there is one. -/
theorem evaluateAt_bind_item (hr : r ∈ rules.rules)
    (hitem : ∀ q ∈ rules.rules, Name.item ∉ q.body.references) (current : Value) (name : String)
    (v : Value) :
    evaluateAt rules limit levels ((s.bind Name.item current).bind name v) r.body =
      evaluateAt rules limit levels (s.bind name v) r.body := by
  have hagree : ∀ q ∈ rules.rules,
      ((s.bind Name.item current).bind name v).AgreesOn q.body.references (s.bind name v) := by
    intro q hq other hother
    have hne : other ≠ Name.item := fun heq => hitem q hq (heq ▸ hother)
    by_cases hname : other = name
    · rw [hname, Scope.get?_bind_self, Scope.get?_bind_self]
    · rw [Scope.get?_bind_of_ne _ v hname, Scope.get?_bind_of_ne _ v hname,
        Scope.get?_bind_of_ne s current hne]
  exact evaluateAt_agreesFor rules limit levels ⟨hagree r hr, fun _ => hagree⟩

/-- What comes of an evaluation that does not want for a level comes of it on more levels too. -/
theorem evaluateAt_of_withinDepth {levels' : Nat} (h : levels ≤ levels') {e : Expr Mark}
    (hwithin : (evaluateAt rules limit levels s e).WithinDepth limit) :
    evaluateAt rules limit levels' s e = evaluateAt rules limit levels s e := by
  rcases evaluateAt_cutOff rules limit limit h s s (.refl s) e with heq | ⟨fault, hfault, hcause⟩
  · exact heq
  · exact absurd hcause (hwithin fault (Run.fault?_eq_some.mpr hfault))

section

variable (hget : rules.get? r.name = some r)

include hget

/-- A call evaluates the body of its rule a level below, in the scope of the call. -/
theorem call_rule_matches (hbuiltin : r.name ∉ Name.builtins) {m : Mark}
    {arguments : List (Expr Mark)} {vs : List Value} {t : Scope}
    (hvalues : (evaluateAll (evaluateAt rules limit levels) s arguments).Matches (.value vs))
    (hscope : r.callScope vs = .ok t) :
    (evaluateAt rules limit (levels + 1) s (.call m r.name arguments)).Matches
      (evaluateAt rules limit levels t r.body) := by
  refine (call_matches hvalues).trans ?_
  rw [apply_rule hbuiltin, Rulebook.call_of_callScope hget hscope]
  exact .refl _

/-- So does `eval` with the name of a rule, in the scope of the caller. -/
theorem call_eval_matches (hfree : s.get? r.name = none) (m m' : Mark) :
    (evaluateAt rules limit (levels + 2) s (.call m "eval" [.reference m' r.name])).Matches
      (evaluateAt rules limit (levels + 1) s r.body) := by
  refine (call_matches (evaluateAll_reference m' r.name)).trans ?_
  rw [hfree, apply_eval, Option.getD_none, Rulebook.evalNamed, hget]
  exact .refl _

/-- A chain of one rule evaluates its body on the same level, with the value as its parameter. -/
theorem chain_matches {q : Parameter} (hparameters : r.parameters = [q])
    (hitem : ∀ q ∈ rules.rules, Name.item ∉ q.body.references) (v : Value) :
    (rules.chain (evaluateAt rules limit levels) s v [r.name]).Matches
      (evaluateAt rules limit levels (s.bind q.name v) r.body) := by
  have hr : r ∈ rules.rules := (Rulebook.get?_eq_some.mp hget).1
  unfold Rulebook.chain
  simp only [hget]
  refine (Run.Matches.traced _ _).trans ?_
  rw [Rule.chainScope_of_parameter hparameters, evaluateAt_bind_item hr hitem]
  exact .refl _

variable (hbuiltin : r.name ∉ Name.builtins) (hscope : r.scope = s)

include hbuiltin hscope

/-- A rule without parameters that keeps the scope of the caller, by its name and called. -/
theorem named_matches_called (limit levels : Nat) (hparameters : r.parameters = [])
    (hfree : s.get? r.name = none) (m m' m'' : Mark) :
    (evaluateAt rules limit levels s (.call m "eval" [.reference m' r.name])).Matches
      (evaluateAt rules limit levels s (.call m'' r.name [])) := by
  have hempty : r.callScope [] = .ok s := by
    rw [Rule.callScope_of_no_parameter hparameters, hscope]
  have hcalled : ∀ levels, (evaluateAt rules limit (levels + 1) s (.call m'' r.name [])).Matches
      (evaluateAt rules limit levels s r.body) :=
    fun levels => call_rule_matches hget hbuiltin (.refl _) hempty
  rcases levels with _ | _ | levels
  -- without two levels neither the name nor the body is evaluated
  · exact ⟨rfl, rfl⟩
  · have hnamed : (evaluateAt rules limit 1 s (.call m "eval" [.reference m' r.name])).Matches
        (evaluateAt rules limit 0 s r.body) := ⟨rfl, rfl⟩
    exact hnamed.trans (hcalled 0).symm
  · exact (call_eval_matches hget hfree m m').trans (hcalled (levels + 1)).symm

/-- A rule with one parameter that keeps the scope of the caller, in a chain and called. The body is
evaluated one level deeper in the call, so what the call comes to within the limit, the chain comes
to as well. -/
theorem chained_matches_called {q : Parameter} (hparameters : r.parameters = [q])
    (hshape : q.shape = .any) (hitem : ∀ q ∈ rules.rules, Name.item ∉ q.body.references)
    (m m' : Mark) (x : String)
    (hwithin : (evaluateAt rules limit levels s
      (.call m r.name [.reference m' x])).WithinDepth limit) :
    (rules.chain (evaluateAt rules limit levels) s ((s.get? x).getD (.text x)) [r.name]).Matches
      (evaluateAt rules limit levels s (.call m r.name [.reference m' x])) := by
  have hbound : r.callScope [(s.get? x).getD (.text x)] =
      .ok (s.bind q.name ((s.get? x).getD (.text x))) := by
    rw [Rule.callScope_of_parameter hparameters hshape, hscope]
  rcases levels with _ | _ | levels
  -- without two levels the call wants for one
  · exact absurd rfl (hwithin _ rfl)
  · exact absurd rfl (hwithin _ rfl)
  · have hcalled :
        (evaluateAt rules limit (levels + 2) s (.call m r.name [.reference m' x])).Matches
          (evaluateAt rules limit (levels + 1) (s.bind q.name ((s.get? x).getD (.text x))) r.body) :=
      call_rule_matches hget hbuiltin (evaluateAll_reference m' x) hbound
    have hchained : (rules.chain (evaluateAt rules limit (levels + 2)) s
          ((s.get? x).getD (.text x)) [r.name]).Matches
        (evaluateAt rules limit (levels + 2) (s.bind q.name ((s.get? x).getD (.text x))) r.body) :=
      chain_matches hget hparameters hitem _
    rw [evaluateAt_of_withinDepth (Nat.le_succ (levels + 1)) (hcalled.withinDepth hwithin)]
      at hchained
    exact hchained.trans hcalled.symm

end

end Expr

/-! ### Queries -/

namespace Element

/-- The query asks for the value of this text. -/
structure Asks (e : Element) (text : String) : Prop where
  chain : e.attribute? "chain" = none
  text : e.attributeOrContent? ["expr"] = some text

/-- The query applies this rule to this target. -/
structure Chains (e : Element) (rule target : String) : Prop where
  chain : e.attribute? "chain" = some rule
  target : e.attribute? "target" = some target

end Element

namespace Construct

variable {p : Program} {f : Frame} {e : Element}

theorem query_of_asks {text : String} (h : e.Asks text) {expression : Expr Mark}
    (hparse : Expr.parse { scope := f.space } p.limits.expression e.line text = .ok expression) :
    Construct.query p f e =
      p.evaluate f.scope expression >>= fun v => .value v.materialized := by
  unfold Construct.query
  rw [h.chain, h.text]
  simp only [Frame.parse, hparse]
  rfl

/-- Outside a namespace, a chain of one rule starts from what the target stands for. -/
theorem query_of_chains {rule x : String} (h : e.Chains rule x) (hrule : Layout.IsName rule)
    (hx : Layout.IsName x) (hspace : f.space = none) :
    Construct.query p f e = p.chain f.scope ((f.scope.get? x).getD (.text x)) [rule] >>=
      fun v => .value v.materialized := by
  have htarget : e.trimmed? "target" = some x := by
    unfold Element.trimmed?
    rw [h.target, Option.map_some, Text.trim_isName hx]
  have hlookup : f.lookup? x = f.scope.get? x := by
    unfold Frame.lookup?
    rw [hspace]
    exact Option.or_self
  unfold Construct.query chainQuery
  simp only [h.chain, htarget, hlookup, hspace, Text.entries_isName hrule]
  rfl

end Construct

namespace Session

/-- The queries have the same answer. Either each records the same value under its own name, or the
same failure is reported of each, at a line of its own; and the same faults are reported before. -/
def SameAnswer (p : Program) (f : Frame) (s : Session) (e e' : Element) : Prop :=
  ∃ (values : List Value) (recovered failures failures' : List Fault),
    Gains f s (s.query p f e) (recovered ++ failures) (values.map (Prod.mk (s.nameOf e).1)) ∧
    Gains f s (s.query p f e') (recovered ++ failures') (values.map (Prod.mk (s.nameOf e').1)) ∧
    failures.map Fault.unplaced = failures'.map Fault.unplaced ∧
    values.length + failures.length = 1

theorem SameAnswer.of_matches {p : Program} {f : Frame} {e e' : Element}
    (h : (Construct.query p f e).Matches (Construct.query p f e')) (s : Session) :
    s.SameAnswer p f e e' := by
  have hgains := Gains.query p f s e
  have hgains' := Gains.query p f s e'
  unfold Run.reported Run.recorded at hgains hgains'
  rcases h.cases with ⟨v, hv, hv'⟩ | ⟨fault, fault', hfault, hfault', hsame⟩
  · rw [hv] at hgains
    rw [hv', ← h.faults] at hgains'
    refine ⟨[v], (Construct.query p f e).faults, [], [], ?_, ?_, rfl, rfl⟩
    · rw [List.append_nil]
      exact hgains
    · rw [List.append_nil]
      exact hgains'
  · rw [hfault] at hgains
    rw [hfault', ← h.faults] at hgains'
    refine ⟨[], _, [fault.atLine e.line], [fault'.atLine e'.line], hgains, hgains', ?_, rfl⟩
    rw [List.map_singleton, List.map_singleton, Fault.unplaced_atLine, Fault.unplaced_atLine, hsame]

end Session

namespace Program

variable {p : Program} {f : Frame} {r : Rule}

section

variable (hrule : r ∈ p.rules.rules) (hname : Layout.IsName r.name)
  (hbuiltin : r.name ∉ Name.builtins) (hspace : f.space = none) (hscope : r.scope = f.scope)
  (hlimit : 1 ≤ p.limits.expression)

include hrule hname hbuiltin hspace hscope hlimit

theorem query_named_matches_called (hparameters : r.parameters = [])
    (hfree : f.scope.get? r.name = none) {named called : Element}
    (hnamed : named.Asks ("eval(" ++ r.name ++ ")")) (hcalled : called.Asks (r.name ++ "()")) :
    (Construct.query p f named).Matches (Construct.query p f called) := by
  have hget : p.rules.get? r.name = some r := Rulebook.get?_eq_some.mpr ⟨hrule, rfl⟩
  have heval : Layout.IsName "eval" :=
    ⟨'e', ['v', 'a', 'l'], rfl, rfl, List.all_eq_true.mp rfl, by decide⟩
  have hparse := Expr.parse_call_name heval hname { scope := f.space } hlimit named.line
  have hparse' := Expr.parse_call_nil hname { scope := f.space } hlimit called.line
  rw [Construct.query_of_asks hnamed hparse, Construct.query_of_asks hcalled hparse', hspace]
  have hmatches := Expr.named_matches_called hget hbuiltin hscope p.limits.evaluation
    p.limits.evaluation hparameters hfree ⟨1, named.line⟩ ⟨0, named.line⟩ ⟨0, called.line⟩
  exact hmatches.bind fun v => .refl _

theorem query_chained_matches_called {q : Parameter} (hparameters : r.parameters = [q])
    (hshape : q.shape = .any) (hitem : ∀ q ∈ p.rules.rules, Name.item ∉ q.body.references)
    {x : String} (hx : Layout.IsName x) {chained called : Element}
    (hchained : chained.Chains r.name x) (hcalled : called.Asks (r.name ++ "(" ++ x ++ ")"))
    (hwithin : (Construct.query p f called).WithinDepth p.limits.evaluation) :
    (Construct.query p f chained).Matches (Construct.query p f called) := by
  have hget : p.rules.get? r.name = some r := Rulebook.get?_eq_some.mpr ⟨hrule, rfl⟩
  have hparse := Expr.parse_call_name hname hx { scope := f.space } hlimit called.line
  rw [Construct.query_of_asks hcalled hparse, hspace] at hwithin ⊢
  rw [Construct.query_of_chains hchained hname hx hspace]
  have hmatches := Expr.chained_matches_called hget hbuiltin hscope hparameters hshape hitem
    ⟨1, called.line⟩ ⟨0, called.line⟩ x hwithin.of_bind
  exact hmatches.bind fun v => .refl _

end

end Program

/-- Without imports every rule keeps the scope of all symbols. -/
theorem Link.scope_of_no_imports {library : Library} {limits : Limits} {position : Position}
    {root : Element} (h : root.findAll importTag = []) :
    ∀ r ∈ (link library limits position root).rules.rules,
      r.scope = (link library limits position root).symbols.scope := by
  intro r hr
  rw [link_no_imports h] at hr ⊢
  obtain ⟨d, -, unnamed, hattempt⟩ := attempt_of_mem_compile hr
  exact (Compilation.attempt_ok hattempt).2.1

namespace Engine

/-- The ways to run a rule agree at the top level of a document without imports. A rule without
parameters, of a name that no symbol has, has the same answer by its name and called; and where no
rule mentions the current element, one with a single parameter of any shape has the same answer in a
chain and called, if the call does not want for a level. -/
theorem invocations_match (engine : Engine) (root : Element) (source : Option String)
    (himports : root.findAll Link.importTag = []) (hlimit : 1 ≤ engine.limits.expression) :
    let linked := engine.linkChecked root source
    let p := engine.program linked
    let f := Frame.ofDocument linked.symbols.scope none
    ∀ r ∈ linked.rules.rules, Layout.IsName r.name → r.name ∉ Name.builtins →
      (r.parameters = [] → linked.symbols.get? r.name = none →
        ∀ named called : Element, named.Asks ("eval(" ++ r.name ++ ")") →
          called.Asks (r.name ++ "()") → ∀ s : Session, s.SameAnswer p f named called) ∧
      (∀ q, r.parameters = [q] → q.shape = .any →
        (∀ q ∈ linked.rules.rules, Name.item ∉ q.body.references) →
        ∀ x, Layout.IsName x → ∀ chained called : Element, chained.Chains r.name x →
          called.Asks (r.name ++ "(" ++ x ++ ")") →
          (Construct.query p f called).WithinDepth engine.limits.evaluation →
          ∀ s : Session, s.SameAnswer p f chained called) := by
  intro linked p f r hr hname hbuiltin
  have hscope : r.scope = f.scope := Link.scope_of_no_imports himports r hr
  refine ⟨fun hparameters hfree named called hnamed hcalled s => ?_,
    fun q hparameters hshape hitem x hx chained called hchained hcalled hwithin s => ?_⟩
  · have hunbound : f.scope.get? r.name = none := by
      show linked.symbols.scope.get? r.name = none
      rw [SymbolTable.get?_scope, hfree]
      rfl
    exact .of_matches (Program.query_named_matches_called (p := p) hr hname hbuiltin rfl hscope
      hlimit hparameters hunbound hnamed hcalled) s
  · exact .of_matches (Program.query_chained_matches_called (p := p) hr hname hbuiltin rfl hscope
      hlimit hparameters hshape hitem hx hchained hcalled hwithin) s

/-- A symbol, a rule that compares with it, and a function that fails on its argument. -/
def invoking : Element :=
  let x := ((Element.leaf "var").setAttribute "name" "x").setAttribute "init" "'a'"
  let r := ((Element.leaf "rule").setAttribute "name" "r").setAttribute "body" "x == 'a'"
  let g := (((Element.leaf "function").setAttribute "name" "g").setAttribute "params"
    "v").setAttribute "body" "-(v in true)"
  (Element.leaf "tenet").addChildren
    [(Element.leaf "symbols").addChild x, (Element.leaf "rules").addChildren [r, g]]

theorem invocations_match_of_queries :
    let engine : Engine := { library := .ofDocuments ∅ }
    let linked := engine.linkChecked invoking none
    let p := engine.program linked
    let f := Frame.ofDocument linked.symbols.scope none
    let asking := fun text => (Element.leaf "query").setAttribute "expr" text
    let chained := ((Element.leaf "query").setAttribute "chain" "g").setAttribute "target" "x"
    Session.SameAnswer p f {} (asking "eval(r)") (asking "r()") ∧
    Session.SameAnswer p f {} chained (asking "g(x)") ∧
    ((Session.query p f {} (asking "r()")).writes.map Prod.fst,
      (Session.query p f {} (asking "r()")).faults) = (["query1"], []) ∧
    (Session.query p f {} chained).faults.map Fault.message =
      ["'in' expects a set, list or string, got boolean", "Cannot negate boolean"] := by
  intro engine linked p f asking chained
  have himports : invoking.findAll Link.importTag = [] := by
    rw [Element.findAll_eq_filter]
    rfl
  have hmatch := invocations_match engine invoking none himports (by decide)
  have hitem : ∀ q ∈ linked.rules.rules, Name.item ∉ q.body.references := by
    have hall : linked.rules.rules.all
        (fun q => decide (Name.item ∉ q.body.references)) = true := by decide +kernel
    exact fun q hq => of_decide_eq_true (List.all_eq_true.mp hall q hq)
  have hrules : linked.rules.rules.map (fun r => (r.name, r.parameters)) =
      [("r", []), ("g", [⟨"v", .any⟩])] := by decide +kernel
  obtain ⟨r, rest, hlist, hentry, hrest⟩ := List.map_eq_cons_iff.mp hrules
  obtain ⟨g, others, hothers, hentry', -⟩ := List.map_eq_cons_iff.mp hrest
  rw [hothers] at hlist
  obtain ⟨hname, hparameters⟩ := Prod.mk.inj hentry
  obtain ⟨hname', hparameters'⟩ := Prod.mk.inj hentry'
  have hfree : linked.symbols.get? "r" = none := Option.isNone_iff_eq_none.mp (by decide +kernel)
  have hisName : ∀ c : Char, Expr.isNameStart c = true → String.ofList [c] ∉ Phrase.reserved →
      Layout.IsName (String.ofList [c]) := fun c hstart hreserved =>
    ⟨c, [], String.toList_ofList, hstart, List.forall_mem_nil _, hreserved⟩
  have hr := hmatch r (hlist ▸ List.mem_cons_self)
  have hg := hmatch g (hlist ▸ List.mem_cons_of_mem r List.mem_cons_self)
  rw [hname] at hr
  rw [hname'] at hg
  have hnamed := (hr (hisName 'r' (by decide) (by decide)) (by decide)).1 hparameters hfree
    (asking "eval(r)") (asking "r()") ⟨rfl, rfl⟩ ⟨rfl, rfl⟩ {}
  have hchained := (hg (hisName 'g' (by decide) (by decide)) (by decide)).2 _ hparameters' rfl hitem
    "x" (hisName 'x' (by decide) (by decide)) chained (asking "g(x)") ⟨rfl, rfl⟩ ⟨rfl, rfl⟩
    (by decide +kernel) {}
  exact ⟨hnamed, hchained, by decide +kernel, by decide +kernel⟩

end Engine

end Premise
