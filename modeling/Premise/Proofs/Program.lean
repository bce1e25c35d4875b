import Mathlib.Data.List.Basic
import Premise.Engine
import Premise.Proofs.Session
import Premise.Proofs.Walk

/-!
Programs that no document can tell apart.

Elements use a program to read expressions, to evaluate them and to chain rules, and they see its
symbols and handlers. Programs that are alike in that much give every element the same session, and
whatever else they differ in does not matter: the rules that they hold or the size of documents they
would allow.
-/

namespace Premise

/-- Programs under which elements come to the same. -/
structure Program.Alike (p q : Program) : Prop where
  symbols : p.symbols = q.symbols
  domains : p.domains = q.domains
  nesting : p.limits.expression = q.limits.expression
  evaluate : p.evaluate = q.evaluate
  chain : p.chain = q.chain

variable {p q : Program}

theorem Frame.parse_alike (h : p.Alike q) (f : Frame) : f.parse p = f.parse q := by
  funext line text
  unfold parse
  rw [h.nesting]

namespace Construct

variable (h : p.Alike q)

include h

theorem query_alike : query p = query q := by
  funext f e
  unfold query chainQuery
  rw [h.chain, h.evaluate, f.parse_alike h]

theorem quantifier_alike : quantifier p = quantifier q := by
  have hcount : countMatches p = countMatches q := by
    funext f condition items
    induction items with
    | nil => rfl
    | cons item items ih => rw [countMatches, countMatches, ih, h.evaluate]
  funext f universal e
  unfold quantifier
  rw [hcount, f.parse_alike h]

theorem assertion_alike : assertion p = assertion q := by
  funext f e
  unfold assertion
  rw [h.evaluate, f.parse_alike h]

theorem constraint_alike : constraint p = constraint q := by
  funext r
  unfold constraint
  rw [h.evaluate]

theorem overrides_alike : overrides p = overrides q := by
  have hone : override p = override q := by
    funext f written
    unfold override
    rw [h.symbols]
  funext f e
  unfold overrides
  rw [hone]

end Construct

namespace Session

section

variable (h : p.Alike q)

include h

theorem query_alike : Session.query p = Session.query q := by
  funext f s e
  rw [query_eq, query_eq, Construct.query_alike h]

theorem domain_alike : Session.domain p = Session.domain q := by
  funext f s e
  unfold domain
  rw [h.domains, h.symbols]

theorem enterBranch_alike : enterBranch p = enterBranch q := by
  funext f s e
  unfold enterBranch
  rw [Construct.overrides_alike h]

end

mutual

theorem visit_alike (h : p.Alike q) (f : Frame) (s : Session) (e : Element) :
    visit p f s e = visit q f s e := by
  cases e with
  | mk tag attributes children text line =>
    unfold visit
    cases Role.ofTag tag with
    | declarations | aggregate => rfl
    | evaluated => exact visitAll_alike h f s children
    | simulated => exact simulateAll_alike h f s children
    | query => simp only [query_alike h]
    | quantifier universal => simp only [Construct.quantifier_alike h]
    | assertion => simp only [Construct.assertion_alike h]
    | branch =>
      simp only [enterBranch_alike h]
      exact visitAll_alike h _ _ children
    | domain => simp only [domain_alike h]

theorem visitAll_alike (h : p.Alike q) (f : Frame) (s : Session) (es : List Element) :
    visitAll p f s es = visitAll q f s es := by
  cases es with
  | nil => rfl
  | cons e es =>
    rw [visitAll, visitAll, visit_alike h f s e]
    exact visitAll_alike h f _ es

theorem simulateAll_alike (h : p.Alike q) (f : Frame) (s : Session) (es : List Element) :
    simulateAll p f s es = simulateAll q f s es := by
  cases es with
  | nil => rfl
  | cons e es =>
    have hvisit : (fun s => visit p f s e) = fun s => visit q f s e :=
      funext fun s => visit_alike h f s e
    rw [simulateAll, simulateAll, hvisit]
    exact simulateAll_alike h f _ es

end

theorem checkConstraints_alike (h : p.Alike q) (s : Session) {names : List String}
    (hget : ∀ name ∈ names, p.rules.get? name = q.rules.get? name) :
    s.checkConstraints p names = s.checkConstraints q names := by
  unfold checkConstraints
  rw [List.filterMap_congr hget, Construct.constraint_alike h]

theorem evaluateDocument_alike (h : p.Alike q) (scope : Scope) (space : Option String)
    {constraints : List String} (s : Session) (root : Element)
    (hget : ∀ name ∈ constraints, p.rules.get? name = q.rules.get? name) :
    evaluateDocument p scope space constraints s root =
      evaluateDocument q scope space constraints s root := by
  unfold evaluateDocument
  rw [checkConstraints_alike h s hget, visitAll_alike h]

end Session

namespace Engine

/-- Where a document is that the engine is asked about. -/
def start (engine : Engine) (source : Option String) : Link.Position :=
  let id := source.map engine.library.identify
  ⟨id, none, id.toList⟩

/-- What the constructs of a linked document are evaluated against. -/
def program (engine : Engine) (linked : Linked) : Program :=
  ⟨linked.symbols, linked.rules, engine.domains, engine.limits⟩

theorem run_eq (engine : Engine) (linked : Linked) (root : Element) :
    engine.run linked root =
      Session.evaluateDocument (engine.program linked) linked.symbols.scope none linked.constraints
        (linked.fullImports.foldl (fun s i => Session.evaluateDocument (engine.program linked)
          linked.symbols.scope i.space i.constraints s i.root) { faults := linked.faults }) root :=
  rfl

theorem check_of_lt {engine : Engine} {root : Element}
    (h : engine.limits.elements < (Element.preorder root).length) :
    engine.check (some root) =
      .error (.tooLarge (Element.preorder root).length engine.limits.elements) := by
  show (if root.count > engine.limits.elements then _ else _) = _
  rw [Element.count_eq_length]
  exact if_pos h

theorem check_of_le {engine : Engine} {root : Element}
    (h : (Element.preorder root).length ≤ engine.limits.elements) :
    engine.check (some root) = .ok root := by
  show (if root.count > engine.limits.elements then _ else _) = _
  rw [Element.count_eq_length]
  exact if_neg (Nat.not_lt.mpr h)

end Engine

end Premise
