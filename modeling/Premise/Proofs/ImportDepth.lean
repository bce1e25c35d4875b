import Premise.Proofs.Program
import Premise.Proofs.Visits

/-!
What the limit on imports within imports comes to.

Linking compares the length of the chain with the limit, and the chain starts with the identity of
the document where it has one. So a document with a source may import down to the level that the
limit says, and one without a source a level further down.
-/

namespace Premise

namespace Session

/-- Evaluating a document adds to what was reported before. -/
theorem evaluateDocument_reports (p : Program) (scope : Scope) (space : Option String)
    (constraints : List String) (s : Session) (root : Element) : ∃ faults,
      (s.evaluateDocument p scope space constraints root).faults = s.faults ++ faults := by
  let f : Frame := .ofDocument scope space
  have hchecks := checkConstraints_parallel p f f s s constraints
  have hboth := hchecks.trans
    (visitAll_parallel p (.refl f) root.children (.inl (hchecks.generated rfl)))
  obtain ⟨faults, _, hgains, -⟩ := hboth.gains
  exact ⟨faults, hgains.faults⟩

end Session

namespace Link

variable {library : Library} {limits : Limits} {p : Position} {e : Element}

theorem acceptAt_tooDeep_iff {reference : String} (h : reference? e = some reference) :
    acceptAt library limits p e = .error (.tooDeep reference limits.imports) ↔
      limits.imports < p.chain.length := by
  refine ⟨fun hrefused => ?_, acceptAt_deep h⟩
  rcases accept_error hrefused with
    ⟨-, hother⟩ | ⟨_, -, ⟨hdeep, -⟩ | ⟨-, ⟨_, -, hother⟩ | ⟨_, -, -, hother⟩⟩⟩
  · cases hother
  · exact Nat.not_le.mp (of_decide_eq_false hdeep)
  · cases hother
  · cases hother

/-- The fault of an import that stands too deep, where there is one. -/
theorem tooDeep_of_refusal (v : Visit) :
    (v.refusal? library limits).filter (Fault.isImport ImportError.isTooDeep) =
      if limits.imports < v.position.chain.length then
        (reference? v.element).map fun reference =>
          fault v.element.line (.tooDeep reference limits.imports)
      else none := by
  cases haccept : acceptAt library limits v.position v.element with
  | ok a =>
    have hshort := of_decide_eq_true (accept_ok haccept).1
    rw [Visit.refusal?_of_ok haccept, if_neg (Nat.not_lt.mpr hshort)]
    rfl
  | error error =>
    rw [Visit.refusal?_of_error haccept]
    rcases accept_error haccept with
      ⟨hnone, rfl⟩ | ⟨reference, hreference, ⟨hdeep, rfl⟩ | ⟨hallowed, hrest⟩⟩
    · rw [hnone]
      split <;> rfl
    · rw [hreference, if_pos (Nat.not_le.mp (of_decide_eq_false hdeep))]
      rfl
    · rw [if_neg (Nat.not_lt.mpr (of_decide_eq_true hallowed))]
      rcases hrest with ⟨_, -, rfl⟩ | ⟨_, -, -, rfl⟩
      · rfl
      · rfl

end Link

namespace Engine

open Link

/-- The levels that the limit leaves over: one, where the document has no identity of its own. -/
def spareLevels (source : Option String) : Nat := if source.isSome then 0 else 1

theorem length_start (engine : Engine) (source : Option String) :
    (engine.start source).chain.length + spareLevels source = 1 := by
  cases source <;> rfl

theorem evaluate_reports (engine : Engine) {root : Element} (source : Option String)
    (h : (Element.preorder root).length ≤ engine.limits.elements) : ∃ faults,
      (engine.evaluate (some root) source).faults =
        (engine.linkChecked root source).faults ++ faults := by
  have hfold : ∀ (p : Program) (scope : Scope) (is : List FullImport) (s : Session), ∃ faults,
      (is.foldl (fun s i => s.evaluateDocument p scope i.space i.constraints i.root) s).faults =
        s.faults ++ faults := by
    intro p scope is
    induction is with
    | nil => exact fun s => ⟨[], (List.append_nil _).symm⟩
    | cons i is ih =>
      intro s
      obtain ⟨first, hfirst⟩ :=
        Session.evaluateDocument_reports p scope i.space i.constraints s i.root
      obtain ⟨rest, hrest⟩ := ih (s.evaluateDocument p scope i.space i.constraints i.root)
      exact ⟨first ++ rest, by rw [List.foldl_cons, hrest, hfirst, List.append_assoc]⟩
  let linked := engine.linkChecked root source
  obtain ⟨full, hfull⟩ := hfold (engine.program linked) linked.symbols.scope linked.fullImports
    { faults := linked.faults }
  obtain ⟨own, hown⟩ := Session.evaluateDocument_reports (engine.program linked)
    linked.symbols.scope none linked.constraints
    (linked.fullImports.foldl (fun s i => s.evaluateDocument (engine.program linked)
      linked.symbols.scope i.space i.constraints i.root) { faults := linked.faults }) root
  refine ⟨full ++ own, ?_⟩
  unfold evaluate
  rw [check_of_le h]
  show (engine.run linked root).faults = _
  rw [run_eq, hown, hfull, List.append_assoc]

/-- With a source, imports are refused for their depth just below the level of the limit; without
one, just below the next level. -/
theorem import_depth (engine : Engine) (root : Element) (source : Option String) :
    let linked : Linked := engine.linkChecked root source
    let deepest : Nat := engine.limits.imports + spareLevels source
    let imports : List Visit := visits engine.library engine.limits 1 (engine.start source) root
    (∀ v ∈ imports, ∀ reference, reference? v.element = some reference →
      (acceptAt engine.library engine.limits v.position v.element =
          .error (.tooDeep reference engine.limits.imports) ↔ deepest < v.level)) ∧
    linked.faults.filter (Fault.isImport ImportError.isTooDeep) =
      imports.filterMap (fun v =>
        if deepest < v.level then
          (reference? v.element).map fun reference =>
            fault v.element.line (.tooDeep reference engine.limits.imports)
        else none) ∧
    ((Element.preorder root).length ≤ engine.limits.elements →
      engine.link (some root) source = linked ∧
      ∃ faults, (engine.evaluate (some root) source).faults = linked.faults ++ faults) := by
  intro linked deepest imports
  have hlevel : ∀ v ∈ imports,
      (engine.limits.imports < v.position.chain.length ↔ deepest < v.level) := by
    intro v hv
    have hchain := chain_of_mem_visits hv
    have hstart := engine.length_start source
    show _ ↔ engine.limits.imports + spareLevels source < v.level
    omega
  refine ⟨fun v hv reference hreference => ?_, ?_, fun hsize => ⟨?_, ?_⟩⟩
  · exact (acceptAt_tooDeep_iff hreference).trans (hlevel v hv)
  · have hrefusals := refusals_link engine.library engine.limits (engine.start source) root 1
    show (Link.link engine.library engine.limits (engine.start source) root).faults.filter _ = _
    rw [← Fault.filter_refusals fun _ => ImportError.isRefusal_of_isTooDeep, hrefusals,
      List.filter_filterMap]
    refine List.filterMap_congr fun v hv => ?_
    rw [tooDeep_of_refusal, if_congr (hlevel v hv) rfl rfl]
  · unfold Engine.link
    rw [check_of_le hsize]
  · exact engine.evaluate_reports source hsize

/-- An engine that allows imports on one level only. -/
def shallow : Engine := { limits := { imports := 1 }, library := pair }

theorem mem_visits_shallow {p q : Position}
    (h : acceptAt shallow.library shallow.limits p (plainImport "a") = .ok ⟨importing "b", q⟩) :
    ⟨2, q, plainImport "b"⟩ ∈ visits shallow.library shallow.limits 1 p (importing "a") := by
  refine mem_visits.mpr (.inr ⟨plainImport "a", ?_, ⟨importing "b", q⟩, h,
    mem_visits.mpr (.inl ⟨?_, rfl, rfl⟩)⟩)
  · rw [findAll_importing]
    exact List.mem_cons_self
  · rw [findAll_importing]
    exact List.mem_cons_self

theorem import_depth_shallow :
    let q : Position := ⟨some "a", none, ["main", "a"]⟩
    ⟨2, q, plainImport "b"⟩ ∈ visits shallow.library shallow.limits 1 (shallow.start (some "main"))
      (importing "a") ∧
    reference? (plainImport "b") = some "b" ∧
    (Element.preorder (importing "a")).length ≤ shallow.limits.elements ∧
    acceptAt shallow.library shallow.limits q (plainImport "b") = .error (.tooDeep "b" 1) ∧
    (shallow.link (some (importing "a")) (some "main")).symbols.names = [] ∧
    (shallow.link (some (importing "a")) (some "main")).faults.map Fault.message =
      ["Import of 'b' exceeds the maximum import depth of 1"] := by
  intro q
  have hvisit := @mem_visits_shallow (shallow.start (some "main")) q rfl
  have hsize : (Element.preorder (importing "a")).length ≤ shallow.limits.elements := by decide
  obtain ⟨hdepth, -, hlink⟩ := import_depth shallow (importing "a") (some "main")
  refine ⟨hvisit, rfl, hsize, (hdepth _ hvisit "b" rfl).mpr (by decide), ?_, ?_⟩
  · rw [(hlink hsize).1]
    decide +kernel
  · rw [(hlink hsize).1]
    decide +kernel

/-- Without a source the same import is let in, though it stands below the level of the limit. -/
theorem import_below_limit :
    let q : Position := ⟨some "a", none, ["a"]⟩
    ⟨2, q, plainImport "b"⟩ ∈ visits shallow.library shallow.limits 1 (shallow.start none)
      (importing "a") ∧
    reference? (plainImport "b") = some "b" ∧ shallow.limits.imports = 1 ∧
    acceptAt shallow.library shallow.limits q (plainImport "b") ≠ .error (.tooDeep "b" 1) ∧
    (shallow.link (some (importing "a")) none).symbols.names = ["s"] ∧
    (shallow.link (some (importing "a")) none).faults.length = 0 := by
  intro q
  refine ⟨mem_visits_shallow rfl, rfl, rfl, fun hrefused => ?_, by decide +kernel,
    by decide +kernel⟩
  exact absurd ((acceptAt_tooDeep_iff rfl).mp hrefused) (by decide)

end Engine

end Premise
