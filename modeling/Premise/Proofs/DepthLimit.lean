import Premise.Proofs.Evaluation

/-!
The limit on nested evaluations cuts evaluations off and does nothing else.

An evaluation with fewer levels left runs step by step like one with more, up to where it finds no
level left. Nothing that evaluates an expression recovers from a failure, so from there on the fault
of the missing level is all that comes of it. The main statement is `evaluateAt_eq_of_le_limit`: an
answer, or a failure of any other kind, is the same under every larger limit.
-/

namespace Premise

namespace Run

/-- The first run is the second one, or the part of it before a level was missing. -/
def CutOff (limit : Nat) {α : Type} (r r' : Run α) : Prop :=
  r' = r ∨ ∃ fault, r.outcome = .error fault ∧ fault.cause = .evaluation (.tooDeep limit)

namespace CutOff

variable {limit : Nat} {α β : Type}

theorem bind {r r' : Run α} {f f' : α → Run β} (h : CutOff limit r r')
    (k : ∀ a, CutOff limit (f a) (f' a)) : CutOff limit (r >>= f) (r' >>= f') := by
  change CutOff limit (r.andThen f) (r'.andThen f')
  rcases h with h | ⟨fault, hout, hcause⟩
  · rw [h]
    cases hout : r.outcome with
    | error fault =>
      simp only [andThen, hout]
      exact Or.inl rfl
    | ok a =>
      simp only [andThen, hout]
      rcases k a with heq | ⟨fault, hf, hcause⟩
      · rw [heq]
        exact Or.inl rfl
      · exact Or.inr ⟨fault, hf, hcause⟩
  · refine Or.inr ⟨fault, ?_, hcause⟩
    simp only [andThen, hout]

theorem orLine {r r' : Run α} (line : Option Nat) (h : CutOff limit r r') :
    CutOff limit (r.orLine line) (r'.orLine line) := by
  rcases h with h | ⟨fault, hout, hcause⟩
  · rw [h]
    exact Or.inl rfl
  · refine Or.inr ⟨fault.orLine line, ?_, hcause⟩
    show r.outcome.mapError _ = _
    rw [hout]
    rfl

end CutOff

def Congruence.cutOff (limit : Nat) : Congruence where
  rel := CutOff limit
  refl _ := Or.inl rfl
  bind := CutOff.bind
  orLine := CutOff.orLine

end Run

namespace Expr

theorem evaluateAt_cutOff (rules : Rulebook) (limit limit' : Nat) {levels levels' : Nat}
    (h : levels ≤ levels') :
    EvaluatorsRelate (.cutOff limit) (evaluateAt rules limit levels)
      (evaluateAt rules limit' levels') := by
  induction levels generalizing levels' with
  | zero =>
    intro s t agree e
    exact Or.inr ⟨depthFault limit e.mark.line, rfl, rfl⟩
  | succ levels ih =>
    intro s t agree e
    cases levels' with
    | zero => omega
    | succ levels' =>
      have hbelow := @ih levels' (by omega)
      have hnode := evaluateNode_congr hbelow agree rules e
      exact Run.CutOff.orLine e.mark.line hnode

/-- A larger limit changes neither an answer nor a failure for another reason than a missing level,
nor what was reported or traced on the way. `entered` levels have been entered before. -/
theorem evaluateAt_eq_of_le_limit (rules : Rulebook) {limit limit' : Nat} (h : limit ≤ limit')
    (entered : Nat) (scope : Scope) (e : Expr Mark) :
    (∀ v, (evaluateAt rules limit (limit - entered) scope e).outcome = .ok v →
      evaluateAt rules limit' (limit' - entered) scope e =
        evaluateAt rules limit (limit - entered) scope e) ∧
    (∀ fault, (evaluateAt rules limit (limit - entered) scope e).outcome = .error fault →
      fault.cause ≠ .evaluation (.tooDeep limit) →
      evaluateAt rules limit' (limit' - entered) scope e =
        evaluateAt rules limit (limit - entered) scope e) := by
  have hlevels : limit - entered ≤ limit' - entered := by omega
  have hcut := evaluateAt_cutOff rules limit limit' hlevels scope scope (.refl scope) e
  constructor
  · intro v hv
    rcases hcut with heq | ⟨cut, hout, _⟩
    · exact heq
    · rw [hv] at hout
      cases hout
  · intro fault hfault hne
    rcases hcut with heq | ⟨cut, hout, hcause⟩
    · exact heq
    · rw [hfault] at hout
      cases hout
      exact absurd hcause hne

/-- A rule that evaluates itself again as long as `go` is true. -/
def againRule : Rule where
  name := "again"
  kind := .rule
  body := .logical ⟨3, some 7⟩ .and (.reference ⟨0, some 7⟩ "go")
    (.call ⟨2, some 7⟩ "eval" [.literal ⟨1, some 7⟩ (.text "again")])
  parameters := []
  line := some 7
  scope := .ofTable ∅

/-- Under a limit of 4, with one level entered, `eval("again")` stops at once where `go` is false,
and negating a text fails; both are the same under a limit of 9. -/
theorem evaluateAt_eq_of_le_limit_again :
    let rules : Rulebook := ⟨[againRule], List.pairwise_singleton _ _⟩
    let scope : Scope := (Scope.ofTable ∅).bind "go" (.boolean false)
    let again : Expr Mark := .call ⟨1, none⟩ "eval" [.literal ⟨0, none⟩ (.text "again")]
    let negated : Expr Mark := .negation ⟨1, some 2⟩ (.literal ⟨0, some 2⟩ (.text "again"))
    4 ≤ 9 ∧
    evaluateAt rules 9 8 scope again = evaluateAt rules 4 3 scope again ∧
    evaluateAt rules 9 8 scope negated = evaluateAt rules 4 3 scope negated := by
  intro rules scope again negated
  have hle : 4 ≤ 9 := by decide
  have hagain := (evaluateAt_eq_of_le_limit rules hle 1 scope again).1 (.boolean false) rfl
  have hnegated := (evaluateAt_eq_of_le_limit rules hle 1 scope negated).2
    ⟨.evaluation (.negationOperand "string"), none, some 2⟩ rfl (by decide)
  exact ⟨hle, hagain, hnegated⟩

end Expr

end Premise
