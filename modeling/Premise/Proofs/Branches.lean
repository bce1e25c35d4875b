import Premise.Proofs.Independence

/-!
What a branch means: its overrides laid over the scope, and its name in front of the results.

A branch in a branch means one branch with both lists of overrides, since a list behind another one
adds its own bindings. Overrides that repeat what their names stand for leave a scope that agrees
with the one outside. And assertions look at the base and the namespace of their frame, which no
branch changes.
-/

namespace Premise

namespace Literal

/-- What a literal stands for by itself; a name and bare text do not stand for anything. -/
def value? : Literal → Option Value
  | .quoted content => some (.text content)
  | .boolean b => some (.boolean b)
  | .number x => some (.number x)
  | .reference _ | .bare _ => none

end Literal

namespace Construct

/-- The name and the value of an override that is a literal. -/
def literal? (written : String) : Option (String × Value) :=
  (Text.keyed? written).bind fun entry =>
    (Literal.classify entry.2).value?.map fun v => (entry.1, v)

/-- Every override in the list is a literal. -/
def AllLiteral (written : String) : Prop :=
  ∀ entry ∈ Text.entries written, (literal? entry).isSome

/-- The bindings of the literals in a list, inside a namespace. -/
def literals (space : Option String) (written : String) : List (String × Value) :=
  ((Text.entries written).filterMap literal?).map fun b => (Name.qualify space b.1, b.2)

instance (written : String) : Decidable (AllLiteral written) :=
  inferInstanceAs (Decidable (∀ entry ∈ Text.entries written, (literal? entry).isSome))

theorem AllLiteral.append {written more : String} (h : AllLiteral written) (k : AllLiteral more) :
    AllLiteral (written ++ "," ++ more) := by
  intro entry hentry
  rw [Text.entries_append] at hentry
  exact (List.mem_append.mp hentry).elim (h entry) (k entry)

/-- A literal is read without looking anything up, whatever shape is expected. -/
theorem override_of_literal (p : Program) (f : Frame) {written name : String} {v : Value}
    (h : literal? written = some (name, v)) :
    override p f written = .ok (Name.qualify f.space name, v) := by
  obtain ⟨⟨key, raw⟩, hkeyed, hvalue⟩ := Option.bind_eq_some_iff.mp h
  obtain ⟨w, hw, heq⟩ := Option.map_eq_some_iff.mp hvalue
  cases heq
  unfold override Symbol.override
  rw [hkeyed]
  simp only
  cases hraw : Literal.classify raw with
  | quoted content => rw [hraw] at hw; cases hw; rfl
  | boolean b => rw [hraw] at hw; cases hw; rfl
  | number x => rw [hraw] at hw; cases hw; rfl
  | reference other => rw [hraw] at hw; cases hw
  | bare content => rw [hraw] at hw; cases hw

theorem overrides_of_literals (p : Program) (f : Frame) {e : Element} {written : String}
    (hwritten : e.attribute? "if" = some written) (h : AllLiteral written) :
    overrides p f e = (literals f.space written, []) := by
  unfold overrides literals
  rw [hwritten]
  simp only [Option.getD_some]
  unfold AllLiteral at h
  generalize Text.entries written = entries at h ⊢
  induction entries with
  | nil => rfl
  | cons entry entries ih =>
    have hrest := ih fun x hx => h x (List.mem_cons_of_mem entry hx)
    obtain ⟨⟨name, v⟩, hentry⟩ := Option.isSome_iff_exists.mp (h entry List.mem_cons_self)
    have hread := override_of_literal p f hentry
    simp only [Prod.mk.injEq] at hrest ⊢
    simp only [List.map_cons, List.filterMap_cons, hread, hentry]
    exact ⟨congrArg (_ :: ·) hrest.1, hrest.2⟩

end Construct

namespace Element

end Element

namespace Frame

/-- The frame inside a branch of literals. -/
abbrev inside (f : Frame) (name written : String) : Frame :=
  f.branch name (Construct.literals f.space written)

end Frame

namespace Session

variable (p : Program) (f : Frame) (s : Session)

end Session

/-! ### Assertions in branches -/

/-- An element that holds others, with a gap among them. -/
structure Holder where
  /-- the holder, whatever it holds -/
  element : Element
  before : List Element
  after : List Element

namespace Holder

def around (h : Holder) (es : List Element) : Element :=
  { h.element with children := h.before ++ es ++ h.after }

/-- Elements in the gap of the innermost of several holders, each in the gap of the one before. -/
def nested (hs : List Holder) (es : List Element) : List Element :=
  hs.foldr (fun h inner => [h.around inner]) es

/-- Branches hold elements, and so do sections. -/
def Holds (h : Holder) : Prop :=
  Role.ofTag h.element.tag = .branch ∨ Role.ofTag h.element.tag = .evaluated ∨
    Role.ofTag h.element.tag = .simulated

end Holder

namespace Session

/-- All that a run makes of assertions it is given is to report, at one place among its other
faults, what they come to in the frame. -/
def ReportsChecks (p : Program) (f : Frame) (s : Session) (run : List Element → Session) : Prop :=
  ∃ before after recorded generated, ∀ checks,
    (∀ a ∈ checks, Role.ofTag a.tag = .assertion) →
    (run checks).faults = s.faults ++ before ++ checks.flatMap (faultsOf p f) ++ after ∧
    (run checks).writes = s.writes ++ recorded ∧ (run checks).generated = generated

section

variable {p : Program} {f outer : Frame} {s t : Session}

variable {evaluate : Session → List Element → Session}

/-- What was gained before goes in front of what is reported. -/
theorem ReportsChecks.behind {run : List Element → Session} {faults : List Fault}
    {writes : List (String × Value)} (hgains : Gains outer s t faults writes)
    (h : ReportsChecks p f t run) : ReportsChecks p f s run := by
  obtain ⟨before, after, recorded, generated, hrun⟩ := h
  refine ⟨faults ++ before, after, writes.map outer.place ++ recorded, generated,
    fun checks hchecks => ?_⟩
  obtain ⟨hfaults, hwrites, hgenerated⟩ := hrun checks hchecks
  rw [hfaults, hwrites, hgains.faults, hgains.writes]
  simp only [List.append_assoc]
  exact ⟨trivial, trivial, hgenerated⟩

end

end Session

end Premise
