import Premise.Eval

/-!
What an evaluation passes on from the evaluations below it.

`evaluateNode` reaches the level below through the evaluator it is given and reads its scope through
`Scope.get?` alone. So a relation between runs that sequencing keeps, and that two evaluators are in
wherever their scopes agree, holds of one node under the two as well. `evaluateNode_congr` says this
once for all nodes, and the inductions on the levels of an evaluation rest on it.
-/

namespace Premise

namespace Scope

/-- Every name stands for the same in both scopes, however their bindings are layered. -/
def Agrees (s t : Scope) : Prop := ∀ name, s.get? name = t.get? name

namespace Agrees

variable {s t u : Scope}

theorem refl (s : Scope) : s.Agrees s := fun _ => rfl

theorem trans (h : s.Agrees t) (k : t.Agrees u) : s.Agrees u := fun name =>
  (h name).trans (k name)

theorem bind (h : s.Agrees t) (name : String) (v : Value) :
    (s.bind name v).Agrees (t.bind name v) := by
  intro other
  by_cases heq : other = name
  · rw [heq, get?_bind_self, get?_bind_self]
  · rw [get?_bind_of_ne s v heq, get?_bind_of_ne t v heq]
    exact h other

end Agrees

theorem overlay_cons (s : Scope) (b : String × Value) (bs : List (String × Value)) :
    s.overlay (b :: bs) = (s.bind b.1 b.2).overlay bs := rfl

theorem Agrees.overlay {s t : Scope} (h : s.Agrees t) (bs : List (String × Value)) :
    (s.overlay bs).Agrees (t.overlay bs) := by
  induction bs generalizing s t with
  | nil => exact h
  | cons b bs ih => exact ih (h.bind b.1 b.2)

end Scope

namespace Run

/-- A relation between runs that holds of a run and itself, and that sequencing and the naming of
lines keep. -/
structure Congruence where
  rel : {α : Type} → Run α → Run α → Prop
  refl : ∀ {α : Type} (r : Run α), rel r r
  bind : ∀ {α β : Type} {r r' : Run α} {f f' : α → Run β}, rel r r' →
    (∀ a, rel (f a) (f' a)) → rel (r >>= f) (r' >>= f')
  orLine : ∀ {α : Type} {r r' : Run α} (line : Option Nat), rel r r' →
    rel (r.orLine line) (r'.orLine line)

/-- Equality, the finest of them. -/
def Congruence.equal : Congruence where
  rel r r' := r = r'
  refl _ := rfl
  bind h k := by
    cases h
    rw [funext k]
  orLine line h := by rw [h]

end Run

namespace Expr

/-- The expressions right below a node. -/
def operands {α : Type} : Expr α → List (Expr α)
  | .literal .. | .reference .. => []
  | .arithmetic _ _ left right | .comparison _ _ left right | .logical _ _ left right
  | .sets _ _ left right | .membership _ left right => [left, right]
  | .negation _ operand | .complement _ operand => [operand]
  | .call _ _ arguments => arguments

section

variable {C : Run.Congruence} {evaluate evaluate' : Evaluator} {s t : Scope}

theorem evaluateAll_relates {es : List (Expr Mark)}
    (h : ∀ e ∈ es, C.rel (evaluate s e) (evaluate' t e)) :
    C.rel (evaluateAll evaluate s es) (evaluateAll evaluate' t es) := by
  induction es with
  | nil => exact C.refl _
  | cons e es ih =>
    refine C.bind (h e List.mem_cons_self) fun v => ?_
    exact C.bind (ih fun x hx => h x (List.mem_cons_of_mem e hx)) fun vs => C.refl _

theorem connect_relates (op : Connective) (left : Value) {r r' : Run Value} (h : C.rel r r') :
    C.rel (connect op left fun _ => r) (connect op left fun _ => r') := by
  by_cases hl : left.isTruthy = true
  · cases op with
    | and =>
      simp only [connect, if_pos hl]
      exact C.bind h fun r => C.refl _
    | or =>
      simp only [connect, if_pos hl]
      exact C.refl _
    | implies =>
      simp only [connect, if_pos hl]
      exact h
    | iff => exact C.bind h fun r => C.refl _
  · cases op with
    | and | implies =>
      simp only [connect, if_neg hl]
      exact C.refl _
    | or =>
      simp only [connect, if_neg hl]
      exact C.bind h fun r => C.refl _
    | iff => exact C.bind h fun r => C.refl _

/-- What a node does with the values below it is the same on both sides, but for the names it looks
up and the rules it calls. -/
theorem evaluateNode_relates {rules rules' : Rulebook} (e : Expr Mark)
    (hoperands : ∀ x ∈ e.operands, C.rel (evaluate s x) (evaluate' t x))
    (hname : ∀ m name, e = .reference m name → s.get? name = t.get? name)
    (hcall : ∀ m name arguments, e = .call m name arguments → ∀ vs,
      C.rel (apply rules evaluate s m.line name vs) (apply rules' evaluate' t m.line name vs)) :
    C.rel (evaluateNode rules evaluate s e) (evaluateNode rules' evaluate' t e) := by
  cases e with
  | literal m v => exact C.refl _
  | reference m name =>
    simp only [evaluateNode, hname m name rfl]
    exact C.refl _
  | arithmetic m op left right | comparison m op left right | sets m op left right
  | membership m left right =>
    refine C.bind (hoperands left (by simp [operands])) fun l => ?_
    exact C.bind (hoperands right (by simp [operands])) fun r => C.refl _
  | logical m op left right =>
    refine C.bind (hoperands left (by simp [operands])) fun l => ?_
    have hright := hoperands right (by simp [operands])
    exact C.bind (connect_relates op l hright) fun v => C.refl _
  | negation m operand | complement m operand =>
    exact C.bind (hoperands operand (by simp [operands])) fun v => C.refl _
  | call m name arguments =>
    refine C.bind (evaluateAll_relates hoperands) fun vs => ?_
    exact C.bind (hcall m name arguments rfl vs) fun v => C.refl _

end

/-- In agreeing scopes the two evaluators yield related runs. -/
def EvaluatorsRelate (C : Run.Congruence) (evaluate evaluate' : Evaluator) : Prop :=
  ∀ s t : Scope, s.Agrees t → ∀ e, C.rel (evaluate s e) (evaluate' t e)

section

variable {C : Run.Congruence} {evaluate evaluate' : Evaluator}
  (h : EvaluatorsRelate C evaluate evaluate') {s t : Scope} (agree : s.Agrees t)

include h agree

/-- Only `eval` looks at the scope of the caller. -/
theorem evalNamed_congr (rules : Rulebook) (arguments : List Value) :
    C.rel (rules.evalNamed evaluate s arguments) (rules.evalNamed evaluate' t arguments) := by
  unfold Rulebook.evalNamed
  split
  · exact C.refl _
  · split
    · exact h s t agree _
    · exact C.refl _
  · exact C.refl _

omit agree in
theorem call_congr (rules : Rulebook) (name : String) (arguments : List Value) :
    C.rel (rules.call evaluate name arguments) (rules.call evaluate' name arguments) := by
  unfold Rulebook.call
  split
  · exact C.refl _
  · refine C.bind (C.refl _) fun scope => ?_
    exact h scope scope (Scope.Agrees.refl scope) _

theorem apply_congr (rules : Rulebook) (line : Option Nat) (name : String)
    (arguments : List Value) :
    C.rel (apply rules evaluate s line name arguments)
      (apply rules evaluate' t line name arguments) := by
  unfold apply
  by_cases herror : name = "error"
  · rw [if_pos herror, if_pos herror]
    exact C.refl _
  · by_cases hpath : name = "path"
    · rw [if_neg herror, if_neg herror, if_pos hpath, if_pos hpath]
      exact C.refl _
    · by_cases heval : name = "eval"
      · rw [if_neg herror, if_neg herror, if_neg hpath, if_neg hpath, if_pos heval, if_pos heval]
        exact evalNamed_congr h agree rules arguments
      · rw [if_neg herror, if_neg herror, if_neg hpath, if_neg hpath, if_neg heval, if_neg heval]
        exact call_congr h rules name arguments

theorem evaluateNode_congr (rules : Rulebook) (e : Expr Mark) :
    C.rel (evaluateNode rules evaluate s e) (evaluateNode rules evaluate' t e) := by
  refine evaluateNode_relates e (fun x _ => h s t agree x) (fun m name _ => agree name) ?_
  intro m name arguments _ vs
  exact apply_congr h agree rules m.line name vs

end

/-- Evaluation reads its scope by looking names up and in no other way. -/
theorem evaluateAt_congr (rules : Rulebook) (limit levels : Nat) :
    EvaluatorsRelate .equal (evaluateAt rules limit levels) (evaluateAt rules limit levels) := by
  induction levels with
  | zero => exact fun _ _ _ _ => rfl
  | succ levels ih =>
    intro s t agree e
    have hnode := evaluateNode_congr ih agree rules e
    exact Run.Congruence.equal.orLine e.mark.line hnode

theorem evaluate_congr (rules : Rulebook) (limit : Nat) {s t : Scope} (agree : s.Agrees t)
    (e : Expr Mark) : evaluate rules limit s e = evaluate rules limit t e :=
  evaluateAt_congr rules limit limit s t agree e

end Expr

end Premise
