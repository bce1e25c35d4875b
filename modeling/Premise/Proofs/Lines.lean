import Premise.Session

/-!
The lines of a trace.

Whatever is done outside the elements that are traced leaves the headers and the finished buffers
alone, and sends its lines to the active buffer, where there is one (`Session.Appends`).
-/

namespace Premise

namespace Run

/-- What a construct that goes by the name tells of its run. -/
def told (r : Run Value) (name : String) : List String :=
  r.steps.map Step.line ++
    match r.outcome with
    | .ok v => [(Step.binding name v).line]
    | .error _ => []

end Run

namespace Session

/-- What a domain tells of an element, under the name that its result goes by. -/
def domainLines (p : Program) (e : Element) : List String :=
  match p.domains.get? e.tag with
  | none => []
  | some handler =>
    match (handler e p.symbols).result with
    | some v => [(Step.binding (domainName e) v).line]
    | none => []

/-- From `s` to `t` the lines went to the active buffer, if there is one, and to the trace nothing
else. -/
structure Appends (s t : Session) (lines : List String) : Prop where
  headers : t.trace.headers = s.trace.headers
  finished : t.trace.finished = s.trace.finished
  active : t.trace.active = s.trace.active.map (· ++ lines)

namespace Appends

variable {s t u : Session} {lines more : List String}

theorem of_trace_eq (h : t.trace = s.trace) : Appends s t [] := by
  refine ⟨congrArg Trace.headers h, congrArg Trace.finished h, ?_⟩
  rw [h]
  cases s.trace.active with
  | none => rfl
  | some buffer => exact congrArg some (List.append_nil buffer).symm

theorem trans (h : Appends s t lines) (k : Appends t u more) : Appends s u (lines ++ more) := by
  refine ⟨k.headers.trans h.headers, k.finished.trans h.finished, ?_⟩
  rw [k.active, h.active]
  cases s.trace.active with
  | none => rfl
  | some buffer => exact congrArg some (List.append_assoc ..)

theorem isActive (h : Appends s t lines) : t.trace.isActive = s.trace.isActive := by
  unfold Trace.isActive
  rw [h.active, Option.isSome_map]

theorem follow (s : Session) (steps : List Step) :
    Appends s (s.follow steps) (steps.map Step.line) := by
  unfold Session.follow Trace.isActive Trace.add
  cases hactive : s.trace.active with
  | none =>
    refine ⟨rfl, rfl, ?_⟩
    rw [hactive]
    exact hactive
  | some buffer =>
    refine ⟨rfl, rfl, ?_⟩
    rw [hactive]
    rfl

theorem absorb {α : Type} (s : Session) (line : Option Nat) (r : Run α) :
    Appends s (s.absorb line r) (r.steps.map Step.line) := by
  have hrun := follow (s.report r.faults) r.steps
  unfold Session.absorb
  cases r.outcome <;> exact ⟨hrun.headers, hrun.finished, hrun.active⟩

theorem conclude (s : Session) (f : Frame) (name : String) (line : Option Nat) (r : Run Value) :
    Appends s (s.conclude f name line r) (r.told name) := by
  have hrun := absorb s line r
  unfold Session.conclude Run.told
  cases r.outcome with
  | ok v =>
    have hvalue := hrun.trans (follow _ [.binding name v])
    exact ⟨hvalue.headers, hvalue.finished, hvalue.active⟩
  | error fault =>
    rw [List.append_nil]
    exact hrun

theorem nameOf (s : Session) (e : Element) : Appends s (s.nameOf e).2 [] := by
  unfold Session.nameOf
  split <;> exact of_trace_eq rfl

theorem domain (p : Program) (f : Frame) (s : Session) (e : Element) :
    Appends s (s.domain p f e) (domainLines p e) := by
  unfold Session.domain domainLines
  cases p.domains.get? e.tag with
  | none => exact of_trace_eq rfl
  | some handler =>
    simp only
    cases (handler e p.symbols).result with
    | none => cases (handler e p.symbols).error <;> exact of_trace_eq rfl
    | some v =>
      have hvalue := follow s [.binding (domainName e) v]
      cases (handler e p.symbols).error <;>
        exact ⟨hvalue.headers, hvalue.finished, hvalue.active⟩

theorem enterBranch (p : Program) (f : Frame) (s : Session) (e : Element) :
    Appends s (s.enterBranch p f e).2
      [(Step.branch e.tag (Construct.overrides p f e).1).line] := by
  have hbranch := follow (s.report (Construct.overrides p f e).2)
    [.branch e.tag (Construct.overrides p f e).1]
  have hreported : Appends s _ _ := ⟨hbranch.headers, hbranch.finished, hbranch.active⟩
  exact hreported.trans (nameOf _ e)

theorem checkConstraints (p : Program) (s : Session) (names : List String) :
    ∃ lines, Appends s (s.checkConstraints p names) lines := by
  unfold Session.checkConstraints
  generalize names.filterMap p.rules.get? = rules
  induction rules generalizing s with
  | nil => exact ⟨[], of_trace_eq rfl⟩
  | cons r rules ih =>
    obtain ⟨lines, hlines⟩ := ih (s.absorb r.line (Construct.constraint p r))
    exact ⟨_, (absorb s r.line (Construct.constraint p r)).trans hlines⟩

/-- Without an active buffer the lines are lost. -/
theorem trace_eq (h : Appends s t lines) (hactive : s.trace.active = none) :
    t.trace = s.trace := by
  have hnone : t.trace.active = s.trace.active := by
    rw [h.active, hactive]
    rfl
  calc t.trace = ⟨t.trace.headers, t.trace.finished, t.trace.active⟩ := rfl
    _ = s.trace := by rw [h.headers, h.finished, hnone]

end Appends

end Session

end Premise
