import Premise.Proofs.Invocation

/-!
An expression and its complement.

An expression comes to the same on whatever line its text stands, but for the lines that faults are
reported at (`Expr.evaluateAt_numberFrom`), and its complement comes to the opposite of its truth.
The complement evaluates its operand one level deeper than the expression is by itself. So the two
agree as long as the complement does not want for a level (`Expr.evaluate_complement`).
-/

namespace Premise

/-- Ending alike is kept by all that a node does. -/
def Run.Congruence.endsAlike : Run.Congruence :=
  ⟨EndsAlike, fun _ => rfl, EndsAlike.bind, fun line => EndsAlike.orLine line line⟩

namespace Expr

variable {α : Type} {rules : Rulebook} {limit : Nat}

section

variable {evaluate : Evaluator} {s : Scope} {line line' : Option Nat}

theorem evaluateAll_numberAllFrom {es : List (Expr α)}
    (h : ∀ e ∈ es, ∀ next next', (evaluate s (numberFrom line next e).1).EndsAlike
      (evaluate s (numberFrom line' next' e).1)) (next next' : Nat) :
    (evaluateAll evaluate s (numberAllFrom line next es).1).EndsAlike
      (evaluateAll evaluate s (numberAllFrom line' next' es).1) := by
  induction es generalizing next next' with
  | nil => rfl
  | cons e es ih =>
    refine Run.EndsAlike.bind (h e List.mem_cons_self next next') fun v => ?_
    exact Run.EndsAlike.bind (ih (fun x hx => h x (List.mem_cons_of_mem e hx)) _ _) fun vs => rfl

/-- Only `path` looks at the line, and puts it on what it recovers from. -/
theorem apply_endsAlike (name : String) (vs : List Value) :
    (apply rules evaluate s line name vs).EndsAlike (apply rules evaluate s line' name vs) := by
  unfold apply
  split
  · rfl
  split
  · rfl
  · rfl

theorem evaluateNode_numberFrom (e : Expr α)
    (h : ∀ x ∈ e.operands, ∀ next next', (evaluate s (numberFrom line next x).1).EndsAlike
      (evaluate s (numberFrom line' next' x).1)) (next next' : Nat) :
    (evaluateNode rules evaluate s (numberFrom line next e).1).EndsAlike
      (evaluateNode rules evaluate s (numberFrom line' next' e).1) := by
  cases e with
  | literal m v | reference m name => rfl
  | arithmetic m op left right | comparison m op left right | sets m op left right
  | membership m left right =>
    refine Run.EndsAlike.bind (h left (by simp [operands]) _ _) fun l => ?_
    exact Run.EndsAlike.bind (h right (by simp [operands]) _ _) fun r => rfl
  | logical m op left right =>
    refine Run.EndsAlike.bind (h left (by simp [operands]) _ _) fun l => ?_
    have hright := h right (by simp [operands]) (numberFrom line next left).2
      (numberFrom line' next' left).2
    exact Run.EndsAlike.bind (@connect_relates .endsAlike op l _ _ hright) fun v => rfl
  | negation m operand | complement m operand =>
    exact Run.EndsAlike.bind (h operand (by simp [operands]) _ _) fun v => rfl
  | call m name arguments =>
    refine Run.EndsAlike.bind (evaluateAll_numberAllFrom h next next') fun vs => ?_
    exact Run.EndsAlike.bind (apply_endsAlike name vs) fun v => rfl

end

/-- Neither the line of an expression nor the numbers of its nodes make a difference to how its
evaluation ends. -/
theorem evaluateAt_numberFrom (levels : Nat) (s : Scope) (line line' : Option Nat) (e : Expr α)
    (next next' : Nat) : (evaluateAt rules limit levels s (numberFrom line next e).1).EndsAlike
      (evaluateAt rules limit levels s (numberFrom line' next' e).1) := by
  induction levels generalizing e next next' with
  | zero => rfl
  | succ levels ih =>
    rw [evaluateAt, evaluateAt]
    exact .orLine _ _ (evaluateNode_numberFrom e (fun x _ next next' => ih x next next') next next')

/-- The run of a complement once its operand has its value. -/
theorem complement_endsAlike (levels : Nat) (s : Scope) (m : Mark) (e : Expr Mark) :
    (evaluateAt rules limit (levels + 1) s (.complement m e)).EndsAlike
      (evaluateAt rules limit levels s e >>= fun v => .value (.boolean (!v.isTruthy))) := by
  rw [evaluateAt, evaluateNode]
  exact Eq.trans (Run.EndsAlike.of_orLine _ _) (Run.EndsAlike.bind rfl fun v => rfl)

/-- Unless it wants for a level, the complement of an expression has the opposite of its truth, and
fails where the expression does. -/
theorem evaluate_complement (s : Scope) (line line' : Option Nat) (e : Expr Unit)
    (hwithin : (evaluate rules limit s (numbered line' (.complement () e))).WithinDepth limit) :
    (evaluate rules limit s (numbered line' (.complement () e))).EndsAlike
      (evaluate rules limit s (numbered line e) >>= fun v => .value (.boolean (!v.isTruthy))) := by
  cases limit with
  | zero => exact absurd rfl (hwithin (depthFault 0 line') rfl)
  | succ levels =>
    have hcomplement := @complement_endsAlike rules (levels + 1) levels s
      ⟨(numberFrom line' 0 e).2, line'⟩ (numberFrom line' 0 e).1
    -- the operand has not wanted for a level either, so it comes to the same with one more
    have hsame := evaluateAt_of_withinDepth (Nat.le_succ levels)
      (hcomplement.withinDepth hwithin).of_bind
    rw [← hsame] at hcomplement
    have hlines := @evaluateAt_numberFrom _ rules (levels + 1) (levels + 1) s line' line e 0 0
    exact hcomplement.trans (hlines.bind fun v => rfl)

end Expr

end Premise
