import Premise.Proofs.Program

/-!
The names that an evaluation hangs on.

An expression looks up the names it refers to, and no others unless it calls `eval`, since the rules
it calls are evaluated in scopes of their own; the rules that `eval` evaluates look up the names
that their bodies refer to. `Expr.evaluateAt_agreesFor` says that nothing else in a scope matters.

So a rule can be exchanged for one that keeps another scope, as long as its body does not call
`eval` and both scopes have the same to say about its free names, those it refers to without a
parameter. `Rulebook.Alike.evaluateAt` says that no expression can tell the difference, however the
rules call each other.
-/

namespace Premise

namespace Scope

/-- The names stand for the same in both scopes. -/
def AgreesOn (s : Scope) (names : List String) (t : Scope) : Prop :=
  ∀ name ∈ names, s.get? name = t.get? name

/-- Names that are bound anew need not have stood for the same before. -/
theorem AgreesOn.overlay {s t : Scope} {names : List String} {bs : List (String × Value)}
    (h : s.AgreesOn (names.filter fun name => name ∉ bs.map (·.1)) t) :
    (s.overlay bs).AgreesOn names (t.overlay bs) := by
  induction bs generalizing s t with
  | nil => exact fun name hname => h name (List.mem_filter.mpr ⟨hname, by simp⟩)
  | cons b bs ih =>
    rw [overlay_cons, overlay_cons]
    refine ih fun name hname => ?_
    obtain ⟨hmem, hfree⟩ := List.mem_filter.mp hname
    by_cases heq : name = b.1
    · rw [heq, get?_bind_self, get?_bind_self]
    · rw [get?_bind_of_ne s b.2 heq, get?_bind_of_ne t b.2 heq]
      refine h name (List.mem_filter.mpr ⟨hmem, ?_⟩)
      simpa [heq] using hfree

end Scope

namespace Expr

variable {α : Type}

mutual

/-- An expression and all that it is made of. -/
def nodes : Expr α → List (Expr α)
  | e@(.literal _ _) | e@(.reference _ _) => [e]
  | e@(.arithmetic _ _ left right) | e@(.comparison _ _ left right) | e@(.logical _ _ left right)
  | e@(.sets _ _ left right) | e@(.membership _ left right) => e :: (nodes left ++ nodes right)
  | e@(.negation _ operand) | e@(.complement _ operand) => e :: nodes operand
  | e@(.call _ _ arguments) => e :: nodesAll arguments

def nodesAll : List (Expr α) → List (Expr α)
  | [] => []
  | e :: es => nodes e ++ nodesAll es

end

def reference? : Expr α → Option String
  | .reference _ name => some name
  | _ => none

def called? : Expr α → Option String
  | .call _ name _ => some name
  | _ => none

/-- The names that an expression looks up. -/
def references (e : Expr α) : List String := e.nodes.filterMap reference?

/-- The names that an expression calls. -/
def calls (e : Expr α) : List String := e.nodes.filterMap called?

theorem mem_nodes_self (e : Expr α) : e ∈ e.nodes := by
  cases e <;> exact List.mem_cons_self

theorem nodes_subset_all {e : Expr α} {es : List (Expr α)} (h : e ∈ es) :
    e.nodes ⊆ nodesAll es := by
  induction es with
  | nil => cases h
  | cons x xs ih =>
    rw [nodesAll]
    rcases List.mem_cons.mp h with rfl | hrest
    · exact List.subset_append_left _ _
    · exact List.subset_append_of_subset_right _ (ih hrest)

theorem nodes_subset {e x : Expr α} (h : x ∈ e.operands) : x.nodes ⊆ e.nodes := by
  cases e with
  | literal m v | reference m name => cases h
  | arithmetic m op left right | comparison m op left right | logical m op left right
  | sets m op left right | membership m left right =>
    rw [nodes]
    refine List.subset_cons_of_subset _ ?_
    rcases List.mem_pair.mp h with rfl | rfl
    · exact List.subset_append_left _ _
    · exact List.subset_append_right _ _
  | negation m operand | complement m operand =>
    rw [nodes, List.mem_singleton.mp h]
    exact List.subset_cons_self _ _
  | call m name arguments =>
    rw [nodes]
    exact List.subset_cons_of_subset _ (nodes_subset_all h)

/-- Without `eval` a call does not look at the scope of the caller. -/
theorem apply_of_ne_eval {name : String} (h : name ≠ "eval") (rules : Rulebook)
    (evaluate : Evaluator) (s t : Scope) (line : Option Nat) (arguments : List Value) :
    apply rules evaluate s line name arguments = apply rules evaluate t line name arguments := by
  unfold apply
  simp only [if_neg h]

/-- All that an expression can see is the same in both scopes: what the names it refers to stand
for, and if it calls `eval` also what the names stand for that the rules refer to. -/
structure AgreesFor (rules : Rulebook) (e : Expr Mark) (s t : Scope) : Prop where
  own : s.AgreesOn e.references t
  named : "eval" ∈ e.calls → ∀ r ∈ rules.rules, s.AgreesOn r.body.references t

namespace AgreesFor

variable {rules : Rulebook} {e : Expr Mark} {s t : Scope}

theorem operand (h : AgreesFor rules e s t) {x : Expr Mark} (hx : x ∈ e.operands) :
    AgreesFor rules x s t := by
  have hinside := nodes_subset hx
  refine ⟨fun name hname => h.own name (List.filterMap_subset _ hinside hname), fun heval => ?_⟩
  exact h.named (List.filterMap_subset _ hinside heval)

/-- Whichever rule is evaluated by its name, and whichever it evaluates in turn. -/
theorem body (h : AgreesFor rules e s t) (heval : "eval" ∈ e.calls) {r : Rule}
    (hr : r ∈ rules.rules) : AgreesFor rules r.body s t :=
  ⟨h.named heval r hr, fun _ => h.named heval⟩

end AgreesFor

theorem evalNamed_agreesFor {rules : Rulebook} {evaluate : Evaluator} {s t : Scope}
    (h : ∀ r ∈ rules.rules, evaluate s r.body = evaluate t r.body) (arguments : List Value) :
    rules.evalNamed evaluate s arguments = rules.evalNamed evaluate t arguments := by
  unfold Rulebook.evalNamed
  split
  · rfl
  · split
    · rename_i r hget
      exact h r (List.mem_of_find?_eq_some hget)
    · rfl
  · rfl

/-- An expression sees nothing of its scope but what these names stand for. The induction is on the
levels, since `eval` goes on in the same scope with the body of another rule. -/
theorem evaluateAt_agreesFor (rules : Rulebook) (limit levels : Nat) {s t : Scope} {e : Expr Mark}
    (h : AgreesFor rules e s t) :
    evaluateAt rules limit levels s e = evaluateAt rules limit levels t e := by
  induction levels generalizing e with
  | zero => rfl
  | succ levels ih =>
    have hnode : evaluateNode rules (evaluateAt rules limit levels) s e =
        evaluateNode rules (evaluateAt rules limit levels) t e := by
      refine @evaluateNode_relates .equal _ _ s t rules rules e (fun x hx => ih (h.operand hx))
        (fun m name heq => ?_) (fun m name arguments heq vs => ?_)
      · exact h.own name (List.mem_filterMap.mpr ⟨e, e.mem_nodes_self, by rw [heq]; rfl⟩)
      · show apply _ _ _ _ _ _ = apply _ _ _ _ _ _
        by_cases hname : name = "eval"
        · have heval : "eval" ∈ e.calls :=
            List.mem_filterMap.mpr ⟨e, e.mem_nodes_self, by rw [heq, hname]; rfl⟩
          have hnamed := evalNamed_agreesFor (fun r hr => ih (h.body heval hr)) vs
          rw [hname]
          exact hnamed
        · exact apply_of_ne_eval hname rules _ s t m.line vs
    rw [evaluateAt, evaluateAt, hnode]

/-- Only what its own names stand for matters to an expression, unless it calls `eval`. -/
theorem evaluateAt_agreesOn (rules : Rulebook) (limit levels : Nat) {s t : Scope} {e : Expr Mark}
    (hcalls : "eval" ∉ e.calls) (h : s.AgreesOn e.references t) :
    evaluateAt rules limit levels s e = evaluateAt rules limit levels t e :=
  evaluateAt_agreesFor rules limit levels ⟨h, fun heval => absurd heval hcalls⟩

end Expr

/-! ### Rules in other scopes -/

namespace Rule

/-- The names that the body looks up in the scope that the rule keeps. -/
def freeNames (r : Rule) : List String :=
  r.body.references.filter fun name => name ∉ r.parameters.map Parameter.name

/-- Rules that come to the same. They may keep different scopes, if the body does not call `eval`
and its free names stand for the same in both. -/
structure Alike (r r' : Rule) : Prop where
  name : r.name = r'.name
  kind : r.kind = r'.kind
  body : r.body = r'.body
  parameters : r.parameters = r'.parameters
  scope : r.scope = r'.scope ∨ "eval" ∉ r.body.calls ∧ r.scope.AgreesOn r.freeNames r'.scope

theorem Alike.refl (r : Rule) : r.Alike r := ⟨rfl, rfl, rfl, rfl, .inl rfl⟩

/-- The first parameter is bound to the first argument, or to null if there is none. -/
theorem bindings_cons_eq_ok {name : String} {p : Parameter} {ps : List Parameter} {vs : List Value}
    {bs : List (String × Value)} (h : bindings name (p :: ps) vs = .ok bs) :
    ∃ rest, bindings name ps vs.tail = .ok rest ∧
      bs = (p.name, vs.head?.getD .null) :: rest := by
  have hrest : ∀ v ws, (do
      let rest ← bindings name ps ws
      .ok ((p.name, v) :: rest) : Except EvalError (List (String × Value))) = .ok bs →
      ∃ rest, bindings name ps ws = .ok rest ∧ bs = (p.name, v) :: rest := by
    intro v ws h
    cases hrest : bindings name ps ws with
    | error error =>
      simp only [hrest, bind, Except.bind] at h
      cases h
    | ok rest =>
      simp only [hrest, bind, Except.bind] at h
      cases h
      exact ⟨rest, rfl, rfl⟩
  cases vs with
  | nil => exact hrest .null [] h
  | cons v vs =>
    unfold bindings at h
    split at h
    · exact hrest v vs h
    · cases h

/-- Every parameter is bound. -/
theorem names_bindings {name : String} {ps : List Parameter} {vs : List Value}
    {bs : List (String × Value)} (h : bindings name ps vs = .ok bs) :
    bs.map (·.1) = ps.map Parameter.name := by
  induction ps generalizing vs bs with
  | nil =>
    unfold bindings at h
    cases h
    rfl
  | cons p ps ih =>
    obtain ⟨rest, hrest, rfl⟩ := bindings_cons_eq_ok h
    rw [List.map_cons, List.map_cons, ih hrest]

/-- Calls of rules that come to the same are refused for the same reason, or the body is evaluated
in scopes that agree on its names. -/
theorem Alike.callScope {r r' : Rule} (h : r.Alike r') (arguments : List Value) :
    (∃ error, r.callScope arguments = .error error ∧ r'.callScope arguments = .error error) ∨
      ∃ s t, r.callScope arguments = .ok s ∧ r'.callScope arguments = .ok t ∧
        (s = t ∨ "eval" ∉ r.body.calls ∧ s.AgreesOn r.body.references t) := by
  unfold Rule.callScope
  rw [← h.name, ← h.kind, ← h.parameters]
  split
  · exact .inl ⟨_, rfl, rfl⟩
  · cases hbound : bindings r.name r.parameters arguments with
    | error error => exact .inl ⟨error, rfl, rfl⟩
    | ok bs =>
      refine .inr ⟨_, _, rfl, rfl, ?_⟩
      rcases h.scope with hsame | ⟨hcalls, hfree⟩
      · exact .inl (by rw [hsame])
      · refine .inr ⟨hcalls, Scope.AgreesOn.overlay ?_⟩
        rw [names_bindings hbound]
        exact hfree

end Rule

namespace Rulebook

/-- Rulebooks with rules of the same names that come to the same. -/
def Alike (b b' : Rulebook) : Prop := ∀ name, Option.Rel Rule.Alike (b.get? name) (b'.get? name)

namespace Alike

variable {b b' : Rulebook} (h : b.Alike b')

include h

theorem cases (name : String) : (b.get? name = none ∧ b'.get? name = none) ∨
    ∃ r r', b.get? name = some r ∧ b'.get? name = some r' ∧ r.Alike r' := by
  have hrule := h name
  cases hget : b.get? name <;> cases hget' : b'.get? name <;> rw [hget, hget'] at hrule
  · exact .inl ⟨rfl, rfl⟩
  · cases hrule
  · cases hrule
  · cases hrule with
    | some hrule => exact .inr ⟨_, _, rfl, rfl, hrule⟩

theorem call {evaluate : Evaluator}
    (heval : ∀ (e : Expr Mark) (s t : Scope), "eval" ∉ e.calls → s.AgreesOn e.references t →
      evaluate s e = evaluate t e) (name : String) (arguments : List Value) :
    b.call evaluate name arguments = b'.call evaluate name arguments := by
  unfold Rulebook.call
  rcases h.cases name with ⟨hget, hget'⟩ | ⟨r, r', hget, hget', hrule⟩
  · simp only [hget, hget']
  · simp only [hget, hget']
    rcases hrule.callScope arguments with ⟨error, herror, herror'⟩ | ⟨s, t, hs, ht, hagree⟩
    · simp only [herror, herror']
      rfl
    · have hsame : evaluate s r.body = evaluate t r.body := by
        rcases hagree with rfl | ⟨hcalls, hnames⟩
        · rfl
        · exact heval r.body s t hcalls hnames
      simp only [hs, ht, ← hrule.body]
      show (evaluate s r.body).after [] [] = (evaluate t r.body).after [] []
      rw [hsame]

/-- Rules that are evaluated by `eval` or in a chain do not use the scope that they keep. -/
theorem evalNamed (evaluate : Evaluator) (scope : Scope) (arguments : List Value) :
    b.evalNamed evaluate scope arguments = b'.evalNamed evaluate scope arguments := by
  unfold Rulebook.evalNamed
  split
  · rfl
  · rename_i name rest
    rcases h.cases name with ⟨hget, hget'⟩ | ⟨r, r', hget, hget', hrule⟩
    · rw [hget, hget']
    · simp only [hget, hget', hrule.body]
  · rfl

theorem chain (evaluate : Evaluator) (scope : Scope) (current : Value) (names : List String) :
    b.chain evaluate scope current names = b'.chain evaluate scope current names := by
  induction names generalizing current with
  | nil => rfl
  | cons name names ih =>
    unfold Rulebook.chain
    rcases h.cases name with ⟨hget, hget'⟩ | ⟨r, r', hget, hget', hrule⟩
    · rw [hget, hget']
    · have hscope : r.chainScope scope current = r'.chainScope scope current := by
        unfold Rule.chainScope
        rw [hrule.parameters]
      simp only [hget, hget', hscope, hrule.body, ih]

theorem evaluateAt (limit levels : Nat) :
    Expr.evaluateAt b limit levels = Expr.evaluateAt b' limit levels := by
  induction levels with
  | zero => rfl
  | succ levels ih =>
    funext s e
    have hnode : Expr.evaluateNode b (Expr.evaluateAt b limit levels) s e =
        Expr.evaluateNode b' (Expr.evaluateAt b' limit levels) s e := by
      rw [ih]
      refine @Expr.evaluateNode_relates .equal _ _ s s b b' e (fun _ _ => rfl) (fun _ _ _ => rfl)
        fun m name arguments _ vs => ?_
      show Expr.apply _ _ _ _ _ _ = Expr.apply _ _ _ _ _ _
      unfold Expr.apply
      rw [h.evalNamed, h.call fun x s t => Expr.evaluateAt_agreesOn b' limit levels]
    rw [Expr.evaluateAt, Expr.evaluateAt, hnode]

end Alike

end Rulebook

/-- No element can tell the rules apart. -/
theorem Program.alike_of_rules {p q : Program} (hsymbols : p.symbols = q.symbols)
    (hdomains : p.domains = q.domains) (hlimits : p.limits = q.limits)
    (hrules : p.rules.Alike q.rules) : p.Alike q := by
  have hevaluate : p.evaluate = q.evaluate := by
    unfold Program.evaluate Expr.evaluate
    rw [hlimits]
    exact hrules.evaluateAt _ _
  refine ⟨hsymbols, hdomains, by rw [hlimits], hevaluate, ?_⟩
  funext scope start names
  unfold Program.chain
  rw [hevaluate]
  exact hrules.chain _ scope start names

end Premise
