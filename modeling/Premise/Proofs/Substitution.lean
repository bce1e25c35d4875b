import Mathlib.Data.List.Nodup
import Premise.Proofs.FreeNames

/-!
Calls as substitution.

A call evaluates the body of a rule with the arguments laid over the scope that the rule keeps.
`Expr.evaluateAt_substitute` says that laying bindings over a scope and writing their values into an
expression come to the same, but for the steps that tell of the lookups; the induction is on the
levels that are left, and each reference takes the level that the literal in its place takes. The
rules that the expression calls have scopes of their own, so they see the bindings neither way; a
rule that `eval` evaluates would see them in the scope but not in the expression, hence the
condition that the body does not call it.
-/

namespace Premise

namespace Run

/-- Runs that end alike and report the same faults, whatever their steps are. -/
def Alike {α : Type} (r r' : Run α) : Prop := r.outcome = r'.outcome ∧ r.faults = r'.faults

namespace Alike

variable {α β : Type} {r r' : Run α}

theorem refl (r : Run α) : r.Alike r := ⟨rfl, rfl⟩

theorem bind {f f' : α → Run β} (h : r.Alike r') (k : ∀ a, (f a).Alike (f' a)) :
    (r >>= f).Alike (r' >>= f') := by
  obtain ⟨houtcome, hfaults⟩ := h
  show (r.andThen f).Alike (r'.andThen f')
  unfold andThen
  rw [← houtcome]
  cases r.outcome with
  | error fault => exact ⟨rfl, hfaults⟩
  | ok a =>
    obtain ⟨koutcome, kfaults⟩ := k a
    refine ⟨koutcome, ?_⟩
    show r.faults ++ (f a).faults = r'.faults ++ (f' a).faults
    rw [hfaults, kfaults]

theorem orLine (line : Option Nat) (h : r.Alike r') : (r.orLine line).Alike (r'.orLine line) :=
  ⟨congrArg (Except.mapError (Fault.orLine · line)) h.1, h.2⟩

end Alike

/-- Being alike is kept by all that a node does. -/
def Congruence.alike : Congruence := ⟨Alike, .refl, .bind, .orLine⟩

end Run

namespace Scope

/-- Of bindings with different names each stands for its value, over what was there before. -/
theorem get?_overlay (s : Scope) {bs : List (String × Value)} (h : (bs.map (·.1)).Nodup)
    (name : String) : (s.overlay bs).get? name = (bs.lookup name).or (s.get? name) := by
  induction bs generalizing s with
  | nil => rfl
  | cons b bs ih =>
    obtain ⟨hfresh, hrest⟩ := List.nodup_cons.mp h
    rw [overlay_cons, ih (s.bind b.1 b.2) hrest, List.lookup_cons]
    by_cases heq : name = b.1
    · have hnone : bs.lookup name = none := by
        rw [List.lookup_eq_none_iff]
        intro c hc
        have hne : b.1 ≠ c.1 := fun hsame => hfresh (List.mem_map.mpr ⟨c, hc, hsame.symm⟩)
        simpa [heq] using hne
      rw [hnone, heq, get?_bind_self]
      simp
    · have hne : (name == b.1) = false := by simpa using heq
      rw [get?_bind_of_ne s b.2 heq, hne]

end Scope

namespace Expr

variable {α : Type}

mutual

/-- The expression with the values of these bindings in place of the references to them. -/
def substitute (bs : List (String × Value)) : Expr α → Expr α
  | .literal m v => .literal m v
  | .reference m name =>
    match bs.lookup name with
    | some v => .literal m v
    | none => .reference m name
  | .arithmetic m op left right => .arithmetic m op (substitute bs left) (substitute bs right)
  | .comparison m op left right => .comparison m op (substitute bs left) (substitute bs right)
  | .logical m op left right => .logical m op (substitute bs left) (substitute bs right)
  | .sets m op left right => .sets m op (substitute bs left) (substitute bs right)
  | .membership m left right => .membership m (substitute bs left) (substitute bs right)
  | .negation m operand => .negation m (substitute bs operand)
  | .complement m operand => .complement m (substitute bs operand)
  | .call m name arguments => .call m name (substituteAll bs arguments)

def substituteAll (bs : List (String × Value)) : List (Expr α) → List (Expr α)
  | [] => []
  | e :: es => substitute bs e :: substituteAll bs es

end

@[simp] theorem mark_substitute (bs : List (String × Value)) (e : Expr α) :
    (e.substitute bs).mark = e.mark := by
  cases e with
  | reference m name =>
    unfold substitute
    split <;> rfl
  | _ => simp only [substitute, mark]

section

variable {C : Run.Congruence} {evaluate evaluate' : Evaluator} {s t : Scope}
  {bs : List (String × Value)}

theorem evaluateAll_substitute {es : List (Expr Mark)}
    (h : ∀ e ∈ es, C.rel (evaluate s e) (evaluate' t (e.substitute bs))) :
    C.rel (evaluateAll evaluate s es) (evaluateAll evaluate' t (substituteAll bs es)) := by
  induction es with
  | nil => exact C.refl _
  | cons e es ih =>
    rw [substituteAll]
    refine C.bind (h e List.mem_cons_self) fun v => ?_
    exact C.bind (ih fun x hx => h x (List.mem_cons_of_mem e hx)) fun vs => C.refl _

end

/-- What a node does with the bindings in its scope, it does with them written into it. -/
theorem evaluateNode_substitute (rules : Rulebook) {evaluate : Evaluator} {s t : Scope}
    {bs : List (String × Value)} (h : ∀ name, s.get? name = (bs.lookup name).or (t.get? name))
    {e : Expr Mark} (hcalls : "eval" ∉ e.calls)
    (hoperands : ∀ x ∈ e.operands, (evaluate s x).Alike (evaluate t (x.substitute bs))) :
    (evaluateNode rules evaluate s e).Alike (evaluateNode rules evaluate t (e.substitute bs)) := by
  cases e with
  | literal m v =>
    rw [substitute]
    exact .refl _
  | reference m name =>
    rw [substitute]
    cases hbound : bs.lookup name with
    | some v =>
      simp only [evaluateNode, h name, hbound]
      exact ⟨rfl, rfl⟩
    | none =>
      simp only [evaluateNode, h name, hbound]
      exact .refl _
  | arithmetic m op left right | comparison m op left right | sets m op left right
  | membership m left right =>
    rw [substitute]
    refine (hoperands left (by simp [operands])).bind fun l => ?_
    exact (hoperands right (by simp [operands])).bind fun r => .refl _
  | logical m op left right =>
    rw [substitute]
    refine (hoperands left (by simp [operands])).bind fun l => ?_
    have hright := hoperands right (by simp [operands])
    exact Run.Alike.bind (@connect_relates .alike op l _ _ hright) fun v => .refl _
  | negation m operand | complement m operand =>
    rw [substitute]
    exact (hoperands operand (by simp [operands])).bind fun v => .refl _
  | call m name arguments =>
    rw [substitute]
    have hne : name ≠ "eval" := by
      rintro rfl
      exact hcalls (List.mem_filterMap.mpr ⟨_, mem_nodes_self _, rfl⟩)
    have harguments := @evaluateAll_substitute .alike evaluate evaluate s t bs arguments hoperands
    refine Run.Alike.bind harguments fun vs => ?_
    rw [apply_of_ne_eval hne rules evaluate s t m.line vs]
    exact .refl _

/-- Bindings come to the same in the scope and in the expression. -/
theorem evaluateAt_substitute (rules : Rulebook) (limit levels : Nat) {s t : Scope}
    {bs : List (String × Value)} (h : ∀ name, s.get? name = (bs.lookup name).or (t.get? name))
    {e : Expr Mark} (hcalls : "eval" ∉ e.calls) :
    (evaluateAt rules limit levels s e).Alike
      (evaluateAt rules limit levels t (e.substitute bs)) := by
  induction levels generalizing e with
  | zero =>
    rw [evaluateAt, evaluateAt, mark_substitute]
    exact .refl _
  | succ levels ih =>
    have hbelow : ∀ x ∈ e.operands, (evaluateAt rules limit levels s x).Alike
        (evaluateAt rules limit levels t (x.substitute bs)) := fun x hx =>
      ih fun heval => hcalls (List.filterMap_subset _ (nodes_subset hx) heval)
    rw [evaluateAt, evaluateAt, mark_substitute]
    exact (evaluateNode_substitute rules h hcalls hbelow).orLine e.mark.line

end Expr

namespace Rule

/-- What the parameters stand for in a call: the arguments in order, and null for the others. -/
def bound (r : Rule) (vs : List Value) : List (String × Value) :=
  r.parameters.mapIdx fun i p => (p.name, vs.getD i .null)

/-- The first argument that its parameter does not accept. -/
def rejected? (r : Rule) (vs : List Value) : Option (Parameter × Value) :=
  (r.parameters.zip vs).find? fun x => !x.1.shape.accepts x.2

/-- Arguments are checked in order, and those that are missing are not. -/
theorem bindings_eq (name : String) (ps : List Parameter) (vs : List Value) :
    bindings name ps vs =
      match (ps.zip vs).find? fun x => !x.1.shape.accepts x.2 with
      | some (p, v) => .error (.argumentShape p.name name p.shape v.typeName)
      | none => .ok (ps.mapIdx fun i p => (p.name, vs.getD i .null)) := by
  induction ps generalizing vs with
  | nil => rfl
  | cons p ps ih =>
    cases vs with
    | nil =>
      rw [bindings, ih, List.zip_nil_right, List.zip_nil_right, List.mapIdx_cons]
      rfl
    | cons v vs =>
      rw [bindings, ih, List.zip_cons_cons, List.find?_cons, List.mapIdx_cons]
      cases haccepts : p.shape.accepts v with
      | false => simp
      | true =>
        simp only [Bool.not_true, if_true, List.getD_cons_zero, List.getD_cons_succ]
        cases (ps.zip vs).find? fun x => !x.1.shape.accepts x.2 <;> rfl

theorem bindings_of_accepted {r : Rule} {vs : List Value} (h : r.rejected? vs = none) :
    bindings r.name r.parameters vs = .ok (r.bound vs) := by
  unfold rejected? at h
  rw [bindings_eq, h]
  rfl

theorem callScope_of_accepted {r : Rule} {vs : List Value}
    (hlength : vs.length ≤ r.parameters.length) (h : r.rejected? vs = none) :
    r.callScope vs = .ok (r.scope.overlay (r.bound vs)) := by
  unfold callScope
  rw [if_neg (by omega), bindings_of_accepted h]
  rfl

theorem callScope_of_rejected {r : Rule} {vs : List Value} {p : Parameter} {v : Value}
    (hlength : vs.length ≤ r.parameters.length) (h : r.rejected? vs = some (p, v)) :
    r.callScope vs = .error (.argumentShape p.name r.name p.shape v.typeName) := by
  unfold rejected? at h
  unfold callScope
  rw [if_neg (by omega), bindings_eq, h]
  rfl

end Rule

namespace Rulebook

variable {rules : Rulebook} {name : String} {r : Rule} {vs : List Value}

theorem call_of_callScope {scope : Scope} (hget : rules.get? name = some r)
    (hscope : r.callScope vs = .ok scope) (evaluate : Evaluator) :
    rules.call evaluate name vs = evaluate scope r.body := by
  unfold call
  rw [hget]
  simp only [hscope]
  show (evaluate scope r.body).after [] [] = _
  rfl

theorem call_of_refused {error : EvalError} (hget : rules.get? name = some r)
    (hscope : r.callScope vs = .error error) (evaluate : Evaluator) :
    rules.call evaluate name vs = .wrong error := by
  unfold call
  rw [hget]
  simp only [hscope]
  rfl

/-- Calling a rule is substitution. With arguments that its parameters accept, and no more of them
than there are parameters, a call ends as its body does with the arguments written into it, and null
where they run out, in the scope that the rule keeps; and it reports the same faults. A call with
more arguments or with one that is not accepted fails whatever an evaluation of the body would come
to. -/
theorem call_substitutes (rules : Rulebook) (limit levels : Nat) {name : String} {r : Rule}
    (hget : rules.get? name = some r)
    (hdistinct : (r.parameters.map Parameter.name).Nodup) (hcalls : "eval" ∉ r.body.calls)
    (vs : List Value) :
    (vs.length ≤ r.parameters.length →
      (∀ x ∈ r.parameters.zip vs, x.1.shape.accepts x.2 = true) →
      (rules.call (Expr.evaluateAt rules limit levels) name vs).Alike
        (Expr.evaluateAt rules limit levels r.scope (r.body.substitute (r.bound vs)))) ∧
    (r.parameters.length < vs.length → ∀ evaluate, rules.call evaluate name vs =
      .wrong (.tooManyArguments r.kind r.name r.parameters.length vs.length)) ∧
    (vs.length ≤ r.parameters.length →
      (∃ x ∈ r.parameters.zip vs, x.1.shape.accepts x.2 = false) →
      ∃ p v, r.rejected? vs = some (p, v) ∧ ∀ evaluate, rules.call evaluate name vs =
        .wrong (.argumentShape p.name r.name p.shape v.typeName)) := by
  refine ⟨fun hlength haccepted => ?_, fun hlength evaluate => ?_, fun hlength hrejected => ?_⟩
  · have hnone : r.rejected? vs = none :=
      List.find?_eq_none.mpr fun x hx => by simp [haccepted x hx]
    have hnames : ((r.bound vs).map (·.1)).Nodup := by
      rw [Rule.names_bindings (Rule.bindings_of_accepted hnone)]
      exact hdistinct
    rw [call_of_callScope hget (Rule.callScope_of_accepted hlength hnone)]
    exact Expr.evaluateAt_substitute rules limit levels (r.scope.get?_overlay hnames) hcalls
  · have hscope : r.callScope vs =
        .error (.tooManyArguments r.kind r.name r.parameters.length vs.length) := if_pos hlength
    exact call_of_refused hget hscope evaluate
  · obtain ⟨x, hx, hfalse⟩ := hrejected
    have hsome : (r.rejected? vs).isSome :=
      List.find?_isSome.mpr ⟨x, hx, by simp [hfalse]⟩
    obtain ⟨⟨p, v⟩, hfound⟩ := Option.isSome_iff_exists.mp hsome
    exact ⟨p, v, hfound, call_of_refused hget (Rule.callScope_of_rejected hlength hfound)⟩

/-- The parameter `x` takes the place of a symbol, which the rule that is called in turn goes on
seeing; `y` is missing. A third argument is refused, and so is a truth value for `x`. -/
theorem call_substitutes_shadowing :
    let kept : Scope := .ofTable (.ofList [("x", .text "kept")])
    let seen : Rule := {
      name := "seen", kind := .rule, body := .reference ⟨0, some 2⟩ "x", parameters := []
      line := some 2, scope := kept }
    let body : Expr Mark := .logical ⟨4, some 3⟩ .or
      (.comparison ⟨2, some 3⟩ .equal (.call ⟨0, some 3⟩ "seen" []) (.reference ⟨1, some 3⟩ "x"))
      (.reference ⟨3, some 3⟩ "y")
    let r : Rule := {
      name := "r", kind := .function, body, parameters := [⟨"x", .text⟩, ⟨"y", .any⟩]
      line := some 3, scope := kept }
    let rules : Rulebook := ⟨[seen, r], by decide⟩
    let evaluate := Expr.evaluateAt rules 8 6
    (rules.call evaluate "r" [.text "given"]).Alike
      (evaluate kept (.logical ⟨4, some 3⟩ .or
        (.comparison ⟨2, some 3⟩ .equal (.call ⟨0, some 3⟩ "seen" [])
          (.literal ⟨1, some 3⟩ (.text "given")))
        (.literal ⟨3, some 3⟩ .null))) ∧
    (rules.call evaluate "r" [.text "given"]).outcome = .ok (.boolean false) ∧
    rules.call evaluate "r" [.null, .null, .null] =
      .wrong (.tooManyArguments .function "r" 2 3) ∧
    rules.call evaluate "r" [.boolean true] = .wrong (.argumentShape "x" "r" .text "boolean") := by
  intro kept seen body r rules evaluate
  have hget : rules.get? "r" = some r := by rfl
  have hdistinct : (r.parameters.map Parameter.name).Nodup := by decide
  have hcalls : "eval" ∉ r.body.calls := by decide
  have haccepted : ∀ x ∈ r.parameters.zip [Value.text "given"], x.1.shape.accepts x.2 = true := by
    intro x hx
    rw [List.mem_singleton.mp hx]
    rfl
  have hsubstitutes := call_substitutes rules 8 6 hget hdistinct hcalls
  obtain ⟨p, v, hrejected, hwrong⟩ :=
    (hsubstitutes [.boolean true]).2.2 (by decide) ⟨_, List.mem_cons_self, by rfl⟩
  cases hrejected
  exact ⟨(hsubstitutes [.text "given"]).1 (by decide) haccepted, by rfl,
    (hsubstitutes _).2.1 (by decide) evaluate, hwrong evaluate⟩

end Rulebook

end Premise
