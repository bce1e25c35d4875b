import Premise.Construct
import Premise.Proofs.Evaluation

/-!
Constructs in agreeing frames.

A construct looks names up in the scope and the base of its frame and reads its expressions in the
namespace of the frame. The path of the frame is no part of that: it only says where a result goes.
So two frames that agree in the first three give a construct the same run.
-/

namespace Premise

namespace Frame

/-- Frames in which constructs have the same meaning. Their results may go by different paths. -/
structure Agrees (f g : Frame) : Prop where
  scope : f.scope.Agrees g.scope
  base : f.base.Agrees g.base
  space : f.space = g.space

namespace Agrees

variable {f g : Frame}

theorem refl (f : Frame) : f.Agrees f := ⟨.refl _, .refl _, rfl⟩

theorem lookup? (h : f.Agrees g) : f.lookup? = g.lookup? := by
  funext name
  unfold Frame.lookup?
  rw [h.space, h.scope, h.scope]

theorem parse (h : f.Agrees g) (p : Program) (line : Option Nat) (text : String) :
    f.parse p line text = g.parse p line text := by
  unfold Frame.parse
  rw [h.space]

theorem collection (h : f.Agrees g) (target construct : String) :
    f.collection target construct = g.collection target construct := by
  unfold Frame.collection
  rw [h.lookup?]

/-- Branches of the same overrides agree again, whatever they are named. -/
theorem branch (h : f.Agrees g) (name name' : String) (overrides : List (String × Value)) :
    (f.branch name overrides).Agrees (g.branch name' overrides) :=
  ⟨h.scope.overlay overrides, h.base, h.space⟩

end Agrees

/-- In the frame, the name stands for a list or a set of these elements. -/
def Binds (f : Frame) (target : String) (items : List Value) : Prop :=
  f.lookup? target = some (.list items) ∨ f.lookup? target = some (.set items)

theorem Binds.collection {f : Frame} {target : String} {items : List Value}
    (h : f.Binds target items) (construct : String) :
    f.collection target construct = .value items := by
  unfold Frame.collection
  rcases h with h | h <;> rw [h] <;> rfl

end Frame

namespace Construct

variable (p : Program)

theorem evaluate_congr {s t : Scope} (agree : s.Agrees t) (e : Expr Mark) :
    p.evaluate s e = p.evaluate t e :=
  Expr.evaluate_congr p.rules p.limits.evaluation agree e

theorem chain_congr {s t : Scope} (agree : s.Agrees t) (start : Value) (names : List String) :
    p.chain s start names = p.chain t start names := by
  unfold Program.chain
  induction names generalizing start with
  | nil => rfl
  | cons name names ih =>
    unfold Rulebook.chain
    cases p.rules.get? name with
    | none => rfl
    | some r =>
      have hscope : (r.chainScope s start).Agrees (r.chainScope t start) := by
        unfold Rule.chainScope
        cases r.parameters with
        | nil => exact agree.bind _ _
        | cons q qs => exact (agree.bind _ _).bind _ _
      simp only [evaluate_congr p hscope, ih]

variable {f g : Frame} (h : f.Agrees g) (e : Element)

include h

theorem query_congr : query p f e = query p g e := by
  have hchain : ∀ rules, chainQuery p f e rules = chainQuery p g e rules := by
    intro rules
    unfold chainQuery
    cases e.trimmed? "target" with
    | none => rfl
    | some target => simp only [h.lookup?, h.space, chain_congr p h.scope]
  unfold query
  cases e.attribute? "chain" with
  | some rules => simp only [hchain]
  | none =>
    cases e.attributeOrContent? ["expr"] with
    | none => rfl
    | some text => simp only [h.parse, evaluate_congr p h.scope]

omit e in
theorem countMatches_congr (condition : Expr Mark) (items : List Value) :
    countMatches p f condition items = countMatches p g condition items := by
  induction items with
  | nil => rfl
  | cons item items ih =>
    unfold countMatches
    rw [evaluate_congr p (h.scope.bind Name.item item), ih]

theorem quantifier_congr (universal : Bool) :
    quantifier p f universal e = quantifier p g universal e := by
  unfold quantifier
  cases e.trimmed? "target" with
  | none => rfl
  | some target =>
    cases e.attributeOrContent? ["condition"] with
    | none => rfl
    | some text => simp only [h.collection, h.parse, countMatches_congr p h]

omit p in
theorem aggregate_congr : aggregate f e = aggregate g e := by
  unfold aggregate
  simp only [h.collection]

omit h in
/-- An assertion looks at nothing but the base and the namespace. -/
theorem assertion_congr (hbase : f.base.Agrees g.base) (hspace : f.space = g.space) :
    assertion p f e = assertion p g e := by
  unfold assertion
  cases e.attributeOrContent? ["expr"] with
  | none => rfl
  | some text =>
    have hparse : f.parse p e.line text = g.parse p e.line text := by
      unfold Frame.parse
      rw [hspace]
    simp only [hparse, evaluate_congr p hbase]

theorem overrides_congr : overrides p f e = overrides p g e := by
  have hone : override p f = override p g := by
    funext written
    unfold override
    rw [h.space, h.lookup?]
  unfold overrides
  rw [hone]

end Construct

end Premise
