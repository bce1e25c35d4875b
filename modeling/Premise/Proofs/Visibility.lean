import Premise.Proofs.Activation
import Premise.Proofs.FreeNames

/-!
What an expression can see.

Two scopes can be layered out of different tables and hold different names. `evaluation_sees` says
that an evaluation goes the same way in both, whatever the rules are and wherever it stands, if the
names it mentions stand for the same. What it mentions is in its own text, unless it calls `eval`:
the name of the rule that is evaluated then can be computed, so every rule counts.
-/

namespace Premise

/-- The answer and what is left in the context are those of the run. -/
theorem Answers.iff {rules : Rulebook} {c : Context} {scope : Scope} {e : Expr Mark}
    {r : Run Value} (h : Answers rules c scope e r) (answer : Except Fault Value) (d : Context) :
    (∃ activation, Evaluates rules c scope e activation answer d) ↔
      answer = r.outcome ∧ d = c.after r := by
  obtain ⟨activation, hrun⟩ := h
  constructor
  · rintro ⟨activation', h'⟩
    exact (hrun.unique h').2
  · rintro ⟨rfl, rfl⟩
    exact ⟨activation, hrun⟩

/-- An evaluation has the same answer in two scopes, reports the same faults and leaves the same
trace, if the names that it mentions stand for the same: those in the expression, and where it calls
`eval` those in the body of any rule. -/
theorem evaluation_sees (rules : Rulebook) (c : Context) {s t : Scope} {e : Expr Mark}
    (hown : ∀ name ∈ e.references, s.get? name = t.get? name)
    (hnamed : "eval" ∈ e.calls →
      ∀ r ∈ rules.rules, ∀ name ∈ r.body.references, s.get? name = t.get? name) :
    Expr.evaluateAt rules c.depth.limit c.depth.remaining s e =
      Expr.evaluateAt rules c.depth.limit c.depth.remaining t e ∧
    ∀ answer d, (∃ activation, Evaluates rules c s e activation answer d) ↔
      ∃ activation, Evaluates rules c t e activation answer d := by
  have hsame : Expr.evaluateAt rules c.depth.limit c.depth.remaining s e =
      Expr.evaluateAt rules c.depth.limit c.depth.remaining t e :=
    Expr.evaluateAt_agreesFor rules c.depth.limit c.depth.remaining ⟨hown, hnamed⟩
  refine ⟨hsame, fun answer d => ?_⟩
  rw [(answers_evaluateAt rules c rfl rfl s e).iff, (answers_evaluateAt rules c rfl rfl t e).iff,
    hsame]

/-- A rule that is evaluated by name sees the names of its body in the scope of the caller, be they
in the base or laid over other values of theirs. -/
theorem evaluation_sees_layers :
    let body : Expr Mark := .comparison ⟨2, none⟩ .equal (.reference ⟨0, none⟩ "x")
      (.reference ⟨1, none⟩ "y")
    let r : Rule := {
      name := "r", kind := .rule, body, parameters := [], line := none, scope := .ofTable ∅ }
    let rules : Rulebook := ⟨[r], List.pairwise_singleton _ _⟩
    let e : Expr Mark := .call ⟨1, none⟩ "eval" [.literal ⟨0, none⟩ (.text "r")]
    let c : Context := ⟨{ trace := { active := some [] } }, ⟨0, 8⟩⟩
    let s : Scope := .ofTable (.ofList [("x", .text "a"), ("y", .text "b"), ("z", .text "c")])
    let t : Scope := ((Scope.ofTable (.ofList [("x", .null)])).bind "x" (.text "a")).bind "y"
      (.text "b")
    e.references = [] ∧ r.body.references = ["x", "y"] ∧ "eval" ∈ e.calls ∧
    s.get? "z" = some (.text "c") ∧ t.get? "z" = none ∧
    Expr.evaluateAt rules c.depth.limit c.depth.remaining s e =
      Expr.evaluateAt rules c.depth.limit c.depth.remaining t e ∧
    (Expr.evaluateAt rules 8 8 t e).steps.map Step.line =
      ["x = a", "y = b", "a == b = false", "eval(r) = false"] := by
  intro body r rules e c s t
  have hrule : ∀ q ∈ rules.rules, ∀ name ∈ q.body.references, s.get? name = t.get? name := by
    intro q hq name hname
    rw [List.mem_singleton.mp hq] at hname
    rcases List.mem_pair.mp (show name ∈ ["x", "y"] from hname) with rfl | rfl
    · rfl
    · rfl
  have hown : ∀ name ∈ e.references, s.get? name = t.get? name :=
    fun name hname => absurd hname List.not_mem_nil
  exact ⟨rfl, rfl, by decide, rfl, rfl, (evaluation_sees rules c hown fun _ => hrule).1,
    by decide +kernel⟩

end Premise
