import Premise.Proofs.Construct
import Premise.Proofs.Text
import Premise.Session

/-!
What the elements of a document add to a session.

A session only ever grows: faults and results go behind those that are there. `Gains` says what was
added, the results by their names inside the frame they were recorded from, so that the same gain
can be stated of two frames with different paths. The step lemmas give the gain of every operation,
and `visit_parallel` is what they come to for a whole tree: two sessions gain the same from it
wherever their frames agree, provided that no name is generated or both would generate the same
ones. Neither what was recorded or reported before nor the trace makes a difference. Where other
names are generated, all but the names is still the same (`visit_sameValues`).
-/

namespace Premise

namespace Frame

/-- A result under the name it goes by outside the frame. -/
def place (f : Frame) (w : String × Value) : String × Value := (f.resultName w.1, w.2)

/-- Behind the name of a branch there is always a point. -/
theorem resultName_branch (f : Frame) {name : String} (h : name ≠ "")
    (overrides : List (String × Value)) (inner : String) :
    (f.branch name overrides).resultName inner = f.resultName (name ++ "." ++ inner) := by
  have hne : (f.resultName name).isEmpty = false := by
    unfold resultName Name.qualify
    split
    · split
      · simp [h]
      · simp [h]
    · simp [h]
  have hbranch : (f.branch name overrides).resultName inner =
      f.resultName name ++ "." ++ inner := by
    show Name.qualify (some (f.resultName name)) inner = _
    simp [Name.qualify, hne]
  rw [hbranch]
  unfold resultName Name.qualify
  split
  · split
    · rfl
    · simp only [String.append_assoc]
  · rfl

end Frame

theorem Element.ne_empty_of_name? (e : Element) {name : String} (h : e.name? = some name) :
    name ≠ "" := by
  obtain ⟨written, _, hblank⟩ := Option.bind_eq_some_iff.mp h
  exact Text.ne_empty_of_nonBlank? hblank

namespace Run

variable {α : Type}

/-- All that a session reports of a run. -/
def reported (line : Option Nat) (r : Run α) : List Fault :=
  match r.outcome with
  | .ok _ => r.faults
  | .error fault => r.faults ++ [fault.atLine line]

/-- What a session records of a run under a name. -/
def recorded (name : String) (r : Run Value) : List (String × Value) :=
  match r.outcome with
  | .ok v => [(name, v)]
  | .error _ => []

/-- The name makes no difference to the value. -/
theorem map_snd_recorded (r : Run Value) (name name' : String) :
    (r.recorded name).map Prod.snd = (r.recorded name').map Prod.snd := by
  unfold recorded
  cases r.outcome <;> rfl

end Run

namespace Session

/-- From `s` to `t` these faults were reported, and these results recorded from the frame. -/
structure Gains (f : Frame) (s t : Session) (faults : List Fault)
    (writes : List (String × Value)) : Prop where
  faults : t.faults = s.faults ++ faults
  writes : t.writes = s.writes ++ writes.map f.place

namespace Gains

variable {f : Frame} {s t u : Session} {faults more : List Fault}
  {writes further : List (String × Value)}

theorem refl (f : Frame) (s : Session) : Gains f s s [] [] :=
  ⟨(List.append_nil _).symm, (List.append_nil _).symm⟩

theorem trans (h : Gains f s t faults writes) (k : Gains f t u more further) :
    Gains f s u (faults ++ more) (writes ++ further) := by
  constructor
  · rw [k.faults, h.faults, List.append_assoc]
  · rw [k.writes, h.writes, List.map_append, List.append_assoc]

theorem report (f : Frame) (s : Session) (faults : List Fault) :
    Gains f s (s.report faults) faults [] := ⟨rfl, (List.append_nil _).symm⟩

theorem record (f : Frame) (s : Session) (name : String) (v : Value) :
    Gains f s (s.record (f.resultName name) v) [] [(name, v)] :=
  ⟨(List.append_nil _).symm, rfl⟩

/-- The trace is not among the gains. -/
theorem retrace {tr tr' : Trace} (h : Gains f { s with trace := tr } t faults writes) :
    Gains f s { t with trace := tr' } faults writes := ⟨h.faults, h.writes⟩

theorem follow (f : Frame) (s : Session) (steps : List Step) :
    Gains f s (s.follow steps) [] [] := by
  unfold Session.follow
  split
  · exact (refl f s).retrace
  · exact refl f s

theorem absorb (f : Frame) (s : Session) {α : Type} (line : Option Nat) (r : Run α) :
    Gains f s (s.absorb line r) (r.reported line) [] := by
  have hrun := (report f s r.faults).trans (follow f (s.report r.faults) r.steps)
  unfold Session.absorb Run.reported
  cases r.outcome with
  | ok a => simpa using hrun
  | error fault => simpa using hrun.trans (report f _ [fault.atLine line])

theorem conclude (f : Frame) (s : Session) (name : String) (line : Option Nat) (r : Run Value) :
    Gains f s (s.conclude f name line r) (r.reported line) (r.recorded name) := by
  have hrun := absorb f s line r
  unfold Session.conclude Run.recorded
  cases r.outcome with
  | error fault => exact hrun
  | ok v =>
    have hvalue := (follow f (s.absorb line r) [.binding name v]).trans (record f _ name v)
    simpa using hrun.trans hvalue

theorem nameOf (f : Frame) (s : Session) (e : Element) : Gains f s (s.nameOf e).2 [] [] := by
  unfold Session.nameOf
  split
  · exact refl f s
  · exact ⟨(List.append_nil _).symm, (List.append_nil _).symm⟩

theorem traced {act : Session → Session} {header : String}
    (h : ∀ s, Gains f s (act s) faults writes) : Gains f s (s.traced header act) faults writes :=
  (h { s with trace := s.trace.start header }).retrace

/-- What is recorded inside a branch is recorded outside it behind the name of the branch. -/
theorem ofBranch {name : String} (hname : name ≠ "") {overrides : List (String × Value)}
    (h : Gains (f.branch name overrides) s t faults writes) :
    Gains f s t faults (writes.map fun w => (name ++ "." ++ w.1, w.2)) := by
  refine ⟨h.faults, ?_⟩
  have hplace : ∀ w ∈ writes, (f.branch name overrides).place w =
      f.place (name ++ "." ++ w.1, w.2) := by
    intro w _
    simp only [Frame.place, f.resultName_branch hname]
  rw [h.writes, List.map_map, List.map_congr_left hplace]
  rfl

end Gains

/-! ### Generated names -/

section

variable (s : Session)

@[simp] theorem generated_report (faults : List Fault) :
    (s.report faults).generated = s.generated := rfl

@[simp] theorem generated_record (name : String) (v : Value) :
    (s.record name v).generated = s.generated := rfl

@[simp] theorem generated_follow (steps : List Step) :
    (s.follow steps).generated = s.generated := by
  unfold follow
  split <;> rfl

@[simp] theorem generated_absorb {α : Type} (line : Option Nat) (r : Run α) :
    (s.absorb line r).generated = s.generated := by
  unfold absorb
  cases r.outcome <;> simp

@[simp] theorem generated_conclude (f : Frame) (name : String) (line : Option Nat)
    (r : Run Value) : (s.conclude f name line r).generated = s.generated := by
  unfold conclude
  cases r.outcome <;> simp

theorem nameOf_ne_empty (e : Element) : (s.nameOf e).1 ≠ "" := by
  unfold nameOf
  cases hname : e.name? with
  | some name => exact e.ne_empty_of_name? hname
  | none => simp [generateName]

variable {s} {s' : Session}

theorem nameOf_fst_congr {e : Element} (h : s.generated = s'.generated ∨ e.name?.isSome) :
    (s.nameOf e).1 = (s'.nameOf e).1 := by
  unfold nameOf
  cases hname : e.name? with
  | some name => rfl
  | none =>
    rcases h with h | h
    · simp only [generateName, h]
    · rw [hname] at h
      cases h

theorem nameOf_snd_congr (e : Element) (h : s.generated = s'.generated) :
    (s.nameOf e).2.generated = (s'.nameOf e).2.generated := by
  unfold nameOf
  cases e.name? with
  | some name => exact h
  | none => simp only [generateName, h]

end

end Session

/-! ### Two sessions side by side -/

namespace Role

/-- What such elements record goes by a name, their own or a generated one. -/
def takesName : Role → Bool
  | .query | .quantifier _ | .aggregate | .branch => true
  | .declarations | .evaluated | .simulated | .assertion | .domain => false

end Role

namespace Element

/-- Whether no name has to be generated for the element. -/
def isNamed (e : Element) : Bool := !(Role.ofTag e.tag).takesName || e.name?.isSome

/-- Whether no name has to be generated for any element of the trees. -/
def AllNamed (es : List Element) : Prop := ∀ e ∈ preorderAll es, e.isNamed = true

theorem AllNamed.head {e : Element} {es : List Element} (h : AllNamed (e :: es)) :
    AllNamed [e] := by
  intro x hx
  refine h x ?_
  simp only [preorderAll, List.append_nil] at hx
  exact List.mem_append_left _ hx

theorem AllNamed.tail {e : Element} {es : List Element} (h : AllNamed (e :: es)) :
    AllNamed es := fun x hx => h x (List.mem_append_right _ hx)

theorem AllNamed.children {e : Element} (h : AllNamed [e]) : AllNamed e.children := by
  intro x hx
  refine h x ?_
  cases e
  simp only [preorderAll, preorder, List.append_nil]
  exact List.mem_cons_of_mem _ hx

theorem AllNamed.isNamed {e : Element} (h : AllNamed [e]) : e.isNamed = true := by
  refine h e ?_
  cases e
  simp only [preorderAll, preorder, List.append_nil]
  exact List.mem_cons_self

theorem AllNamed.name {e : Element} (h : AllNamed [e])
    (hrole : (Role.ofTag e.tag).takesName = true) : e.name?.isSome := by
  have hnamed := h.isNamed
  simpa [Element.isNamed, hrole] using hnamed

end Element

namespace Session

/-- From `s` to `t` in `f` and from `s'` to `t'` in `g` the same is gained, and sessions that would
generate the same names go on doing so. -/
structure Parallel (f g : Frame) (s t s' t' : Session) : Prop where
  gains : ∃ faults writes, Gains f s t faults writes ∧ Gains g s' t' faults writes
  generated : s.generated = s'.generated → t.generated = t'.generated

namespace Parallel

variable {f g : Frame} {s t u s' t' u' : Session}

theorem refl (f g : Frame) (s s' : Session) : Parallel f g s s s' s' :=
  ⟨⟨[], [], .refl f s, .refl g s'⟩, id⟩

theorem trans (h : Parallel f g s t s' t') (k : Parallel f g t u t' u') :
    Parallel f g s u s' u' := by
  obtain ⟨⟨faults, writes, hf, hg⟩, hgen⟩ := h
  obtain ⟨⟨more, further, kf, kg⟩, kgen⟩ := k
  exact ⟨⟨_, _, hf.trans kf, hg.trans kg⟩, fun heq => kgen (hgen heq)⟩

theorem ofBranch {name : String} (hname : name ≠ "") {overrides : List (String × Value)}
    (h : Parallel (f.branch name overrides) (g.branch name overrides) s t s' t') :
    Parallel f g s t s' t' := by
  obtain ⟨⟨faults, writes, hf, hg⟩, hgen⟩ := h
  exact ⟨⟨_, _, hf.ofBranch hname, hg.ofBranch hname⟩, hgen⟩

end Parallel

/-- No name has to be generated for the trees, or both sessions would generate the same names. -/
def NamesAlike (s s' : Session) (es : List Element) : Prop :=
  s.generated = s'.generated ∨ Element.AllNamed es

section

variable {f g : Frame} {s s' : Session} (p : Program)

theorem NamesAlike.name {e : Element} (h : NamesAlike s s' [e])
    (hrole : (Role.ofTag e.tag).takesName = true) :
    s.generated = s'.generated ∨ e.name?.isSome :=
  h.imp_right fun hnamed => hnamed.name hrole

theorem query_eq (f : Frame) (s : Session) (e : Element) :
    s.query p f e =
      if e.attribute? "trace" = some "full" ∧ !(s.nameOf e).2.trace.isActive then
        (s.nameOf e).2.traced s!"trace query '{(s.nameOf e).1}'" fun t =>
          t.conclude f (s.nameOf e).1 e.line (Construct.query p f e)
      else (s.nameOf e).2.conclude f (s.nameOf e).1 e.line (Construct.query p f e) := rfl

theorem Gains.query (f : Frame) (s : Session) (e : Element) :
    Gains f s (s.query p f e) ((Construct.query p f e).reported e.line)
      ((Construct.query p f e).recorded (s.nameOf e).1) := by
  have hname := Gains.nameOf f s e
  rw [query_eq]
  split
  · exact hname.trans (.traced fun s => .conclude f s _ e.line _)
  · exact hname.trans (.conclude f _ _ e.line _)

/-- What a handler yields hangs on the element and the symbols alone. -/
theorem Gains.domain (e : Element) :
    ∃ faults writes, ∀ (f : Frame) (s : Session), Gains f s (s.domain p f e) faults writes := by
  unfold Session.domain
  cases p.domains.get? e.tag with
  | none => exact ⟨_, _, fun f s => .report f s _⟩
  | some handler =>
    simp only
    cases (handler e p.symbols).result with
    | none =>
      cases (handler e p.symbols).error with
      | none => exact ⟨_, _, fun f s => .refl f s⟩
      | some message => exact ⟨_, _, fun f s => .report f s _⟩
    | some v =>
      cases (handler e p.symbols).error with
      | none => exact ⟨_, _, fun f s => (Gains.follow f s _).trans (.record f _ _ v)⟩
      | some message =>
        exact ⟨_, _, fun f s =>
          ((Gains.follow f s _).trans (.record f _ _ v)).trans (.report f _ _)⟩

theorem generated_domain (f : Frame) (s : Session) (e : Element) :
    (s.domain p f e).generated = s.generated := by
  unfold Session.domain
  cases p.domains.get? e.tag with
  | none => rfl
  | some handler =>
    simp only
    cases (handler e p.symbols).result <;> cases (handler e p.symbols).error <;> simp

theorem generated_query (f : Frame) (s : Session) (e : Element) :
    (s.query p f e).generated = (s.nameOf e).2.generated := by
  rw [query_eq]
  split
  · unfold traced
    simp only [generated_conclude]
  · exact generated_conclude _ _ _ _ _

theorem conclude_parallel {e : Element} (line : Option Nat) {r r' : Run Value} (hrun : r = r')
    (hname : s.generated = s'.generated ∨ e.name?.isSome) :
    Parallel f g s ((s.nameOf e).2.conclude f (s.nameOf e).1 line r)
      s' ((s'.nameOf e).2.conclude g (s'.nameOf e).1 line r') := by
  subst hrun
  have hf := (Gains.nameOf f s e).trans (.conclude f _ (s.nameOf e).1 line r)
  have hg := (Gains.nameOf g s' e).trans (.conclude g _ (s'.nameOf e).1 line r)
  rw [← nameOf_fst_congr hname] at hg ⊢
  refine ⟨⟨_, _, hf, hg⟩, fun hgen => ?_⟩
  rw [generated_conclude, generated_conclude]
  exact nameOf_snd_congr e hgen

theorem query_parallel (h : f.Agrees g) {e : Element}
    (hname : s.generated = s'.generated ∨ e.name?.isSome) :
    Parallel f g s (s.query p f e) s' (s'.query p g e) := by
  have hg := Gains.query p g s' e
  rw [← Construct.query_congr p h, ← nameOf_fst_congr hname] at hg
  refine ⟨⟨_, _, Gains.query p f s e, hg⟩, fun hgen => ?_⟩
  rw [generated_query, generated_query]
  exact nameOf_snd_congr e hgen

theorem traced_parallel {header : String} {act act' : Session → Session}
    (h : Parallel f g { s with trace := s.trace.start header }
      (act { s with trace := s.trace.start header })
      { s' with trace := s'.trace.start header }
      (act' { s' with trace := s'.trace.start header })) :
    Parallel f g s (s.traced header act) s' (s'.traced header act') := by
  obtain ⟨⟨faults, writes, hf, hg⟩, hgen⟩ := h
  exact ⟨⟨_, _, hf.retrace, hg.retrace⟩, hgen⟩

/-- The overrides of a branch are read before the branch is named, which makes no difference to its
name. -/
theorem enterBranch_fst (f : Frame) (s : Session) (e : Element) :
    (s.enterBranch p f e).1 = f.branch (s.nameOf e).1 (Construct.overrides p f e).1 := by
  unfold enterBranch
  simp only
  have hname := @nameOf_fst_congr ((s.report (Construct.overrides p f e).2).follow
    [.branch e.tag (Construct.overrides p f e).1]) s e (.inl (by simp))
  rw [hname]

theorem generated_enterBranch (f : Frame) (s : Session) (e : Element) :
    (s.enterBranch p f e).2.generated = (s.nameOf e).2.generated := by
  unfold enterBranch
  exact nameOf_snd_congr e (by simp)

theorem Gains.enterBranch (f g : Frame) (s : Session) (e : Element) :
    Gains g s (s.enterBranch p f e).2 (Construct.overrides p f e).2 [] := by
  have hreport := Gains.report g s (Construct.overrides p f e).2
  have hfollow := hreport.trans (.follow g _ [.branch e.tag (Construct.overrides p f e).1])
  have hname := hfollow.trans (.nameOf g _ e)
  unfold Session.enterBranch
  simpa using hname

theorem enterBranch_parallel (h : f.Agrees g) {e : Element}
    (hname : s.generated = s'.generated ∨ e.name?.isSome) :
    Parallel f g s (s.enterBranch p f e).2 s' (s'.enterBranch p g e).2 ∧
    ∃ name, name ≠ "" ∧
      (s.enterBranch p f e).1 = f.branch name (Construct.overrides p f e).1 ∧
      (s'.enterBranch p g e).1 = g.branch name (Construct.overrides p f e).1 := by
  have hg := Gains.enterBranch p g g s' e
  rw [← Construct.overrides_congr p h] at hg
  refine ⟨⟨⟨_, _, .enterBranch p f f s e, hg⟩, fun hgen => ?_⟩, (s.nameOf e).1,
    nameOf_ne_empty s e, enterBranch_fst p f s e, ?_⟩
  · rw [generated_enterBranch, generated_enterBranch]
    exact nameOf_snd_congr e hgen
  · rw [enterBranch_fst, ← Construct.overrides_congr p h, ← nameOf_fst_congr hname]

end

mutual

/-- Sessions gain the same from an element in agreeing frames. -/
theorem visit_parallel (p : Program) {f g : Frame} (h : f.Agrees g) (e : Element) {s s' : Session}
    (hnames : NamesAlike s s' [e]) : Parallel f g s (visit p f s e) s' (visit p g s' e) := by
  cases e with
  | mk tag attributes children text line =>
    unfold visit
    cases hrole : Role.ofTag tag with
    | declarations => exact .refl f g s s'
    | evaluated => exact visitAll_parallel p h children (hnames.imp_right fun hn => hn.children)
    | simulated => exact simulateAll_parallel p h children (hnames.imp_right fun hn => hn.children)
    | query => exact query_parallel p h (hnames.name (by rw [hrole]; rfl))
    | quantifier universal =>
      exact conclude_parallel line (Construct.quantifier_congr p h _ universal)
        (hnames.name (by rw [hrole]; rfl))
    | aggregate =>
      exact conclude_parallel line (Construct.aggregate_congr h _)
        (hnames.name (by rw [hrole]; rfl))
    | assertion =>
      simp only [← Construct.assertion_congr p _ h.base h.space]
      refine ⟨⟨_, _, .absorb f s line _, .absorb g s' line _⟩, fun hgen => ?_⟩
      rw [generated_absorb, generated_absorb]
      exact hgen
    | branch =>
      have hname := hnames.name (by rw [hrole]; rfl)
      obtain ⟨henter, name, hne, hf, hg⟩ := enterBranch_parallel p h hname
      have hinner : NamesAlike (s.enterBranch p f _).2 (s'.enterBranch p g _).2 children :=
        hnames.imp henter.generated fun hn => hn.children
      refine henter.trans ?_
      simp only [hf, hg]
      exact .ofBranch hne (visitAll_parallel p (h.branch name name _) children hinner)
    | domain =>
      obtain ⟨faults, writes, hgains⟩ := Gains.domain p ⟨tag, attributes, children, text, line⟩
      refine ⟨⟨faults, writes, hgains f s, hgains g s'⟩, fun hgen => ?_⟩
      simp only [generated_domain]
      exact hgen

theorem visitAll_parallel (p : Program) {f g : Frame} (h : f.Agrees g) (es : List Element)
    {s s' : Session} (hnames : NamesAlike s s' es) :
    Parallel f g s (visitAll p f s es) s' (visitAll p g s' es) := by
  cases es with
  | nil => exact .refl f g s s'
  | cons e es =>
    unfold visitAll
    have hhead := visit_parallel p h e (hnames.imp_right fun hn => hn.head)
    exact hhead.trans (visitAll_parallel p h es (hnames.imp hhead.generated fun hn => hn.tail))

theorem simulateAll_parallel (p : Program) {f g : Frame} (h : f.Agrees g) (es : List Element)
    {s s' : Session} (hnames : NamesAlike s s' es) :
    Parallel f g s (simulateAll p f s es) s' (simulateAll p g s' es) := by
  cases es with
  | nil => exact .refl f g s s'
  | cons e es =>
    unfold simulateAll
    have hhead : Parallel f g s (s.traced (simulationHeader e) fun s => visit p f s e)
        s' (s'.traced (simulationHeader e) fun s => visit p g s e) :=
      traced_parallel (visit_parallel p h e (hnames.imp_right fun hn => hn.head))
    exact hhead.trans (simulateAll_parallel p h es (hnames.imp hhead.generated fun hn => hn.tail))

end

/-! ### Names apart -/

/-- From `s` to `t` in `f` and from `s'` to `t'` in `g` the same faults are reported and the same
values recorded, if perhaps under other names. -/
def SameValues (f g : Frame) (s t s' t' : Session) : Prop :=
  ∃ faults writes writes', Gains f s t faults writes ∧ Gains g s' t' faults writes' ∧
    writes.map Prod.snd = writes'.map Prod.snd

namespace SameValues

variable {f g : Frame} {s t u s' t' u' : Session}

theorem refl (f g : Frame) (s s' : Session) : SameValues f g s s s' s' :=
  ⟨[], [], [], .refl f s, .refl g s', rfl⟩

theorem trans (h : SameValues f g s t s' t') (k : SameValues f g t u t' u') :
    SameValues f g s u s' u' := by
  obtain ⟨faults, writes, writes', hf, hg, hvalues⟩ := h
  obtain ⟨more, further, further', kf, kg, kvalues⟩ := k
  refine ⟨_, _, _, hf.trans kf, hg.trans kg, ?_⟩
  rw [List.map_append, List.map_append, hvalues, kvalues]

theorem ofBranch {name name' : String} (hname : name ≠ "") (hname' : name' ≠ "")
    {overrides : List (String × Value)}
    (h : SameValues (f.branch name overrides) (g.branch name' overrides) s t s' t') :
    SameValues f g s t s' t' := by
  obtain ⟨faults, writes, writes', hf, hg, hvalues⟩ := h
  refine ⟨_, _, _, hf.ofBranch hname, hg.ofBranch hname', ?_⟩
  rw [List.map_map, List.map_map]
  exact hvalues

theorem conclude (e : Element) (line : Option Nat) {r r' : Run Value} (hrun : r = r') :
    SameValues f g s ((s.nameOf e).2.conclude f (s.nameOf e).1 line r)
      s' ((s'.nameOf e).2.conclude g (s'.nameOf e).1 line r') := by
  subst hrun
  have hf := (Gains.nameOf f s e).trans (.conclude f _ (s.nameOf e).1 line r)
  have hg := (Gains.nameOf g s' e).trans (.conclude g _ (s'.nameOf e).1 line r)
  exact ⟨_, _, _, hf, hg, r.map_snd_recorded _ _⟩

theorem traced {header : String} {act act' : Session → Session}
    (h : ∀ s s', SameValues f g s (act s) s' (act' s')) :
    SameValues f g s (s.traced header act) s' (s'.traced header act') := by
  obtain ⟨faults, writes, writes', hf, hg, hvalues⟩ :=
    h { s with trace := s.trace.start header } { s' with trace := s'.trace.start header }
  exact ⟨_, _, _, hf.retrace, hg.retrace, hvalues⟩

end SameValues

mutual

/-- What an element reports and records hangs on its frame, and on the session it is evaluated in
only by the names it records under. -/
theorem visit_sameValues (p : Program) {f g : Frame} (h : f.Agrees g) (e : Element)
    (s s' : Session) : SameValues f g s (visit p f s e) s' (visit p g s' e) := by
  cases e with
  | mk tag attributes children text line =>
    unfold visit
    cases Role.ofTag tag with
    | declarations => exact .refl f g s s'
    | evaluated => exact visitAll_sameValues p h children s s'
    | simulated => exact simulateAll_sameValues p h children s s'
    | query =>
      have hg := Gains.query p g s' ⟨tag, attributes, children, text, line⟩
      rw [← Construct.query_congr p h] at hg
      exact ⟨_, _, _, Gains.query p f s _, hg, Run.map_snd_recorded _ _ _⟩
    | quantifier universal =>
      exact .conclude _ line (Construct.quantifier_congr p h _ universal)
    | aggregate => exact .conclude _ line (Construct.aggregate_congr h _)
    | assertion =>
      simp only [← Construct.assertion_congr p _ h.base h.space]
      exact ⟨_, _, _, .absorb f s line _, .absorb g s' line _, rfl⟩
    | branch =>
      have hg := Gains.enterBranch p g g s' ⟨tag, attributes, children, text, line⟩
      rw [← Construct.overrides_congr p h] at hg
      refine .trans ⟨_, _, _, .enterBranch p f f s _, hg, rfl⟩ ?_
      simp only [enterBranch_fst, ← Construct.overrides_congr p h]
      exact .ofBranch (nameOf_ne_empty s _) (nameOf_ne_empty s' _)
        (visitAll_sameValues p (h.branch _ _ _) children _ _)
    | domain =>
      obtain ⟨faults, writes, hgains⟩ := Gains.domain p ⟨tag, attributes, children, text, line⟩
      exact ⟨faults, writes, writes, hgains f s, hgains g s', rfl⟩

theorem visitAll_sameValues (p : Program) {f g : Frame} (h : f.Agrees g) (es : List Element)
    (s s' : Session) : SameValues f g s (visitAll p f s es) s' (visitAll p g s' es) := by
  cases es with
  | nil => exact .refl f g s s'
  | cons e es =>
    unfold visitAll
    exact (visit_sameValues p h e s s').trans (visitAll_sameValues p h es _ _)

theorem simulateAll_sameValues (p : Program) {f g : Frame} (h : f.Agrees g) (es : List Element)
    (s s' : Session) : SameValues f g s (simulateAll p f s es) s' (simulateAll p g s' es) := by
  cases es with
  | nil => exact .refl f g s s'
  | cons e es =>
    unfold simulateAll
    exact (SameValues.traced fun s s' => visit_sameValues p h e s s').trans
      (simulateAll_sameValues p h es _ _)

end

/-! ### One run -/

section

variable (p : Program) (f : Frame) (s : Session)

theorem visitAll_append (es fs : List Element) :
    visitAll p f s (es ++ fs) = visitAll p f (visitAll p f s es) fs := by
  induction es generalizing s with
  | nil => rw [visitAll, List.nil_append]
  | cons e es ih => rw [List.cons_append, visitAll, visitAll, ih]

theorem visit_query {e : Element} (h : Role.ofTag e.tag = .query) :
    visit p f s e = s.query p f e := by
  cases e
  simp only [visit, h]

theorem visit_quantifier {e : Element} {universal : Bool}
    (h : Role.ofTag e.tag = .quantifier universal) :
    visit p f s e = (s.nameOf e).2.conclude f (s.nameOf e).1 e.line
      (Construct.quantifier p f universal e) := by
  cases e
  simp only [visit, h]

theorem visit_assertion {e : Element} (h : Role.ofTag e.tag = .assertion) :
    visit p f s e = s.absorb e.line (Construct.assertion p f e) := by
  cases e
  simp only [visit, h]

theorem visit_declarations {e : Element} (h : Role.ofTag e.tag = .declarations) :
    visit p f s e = s := by
  cases e
  simp only [visit, h]

theorem visitAll_declarations {es : List Element}
    (h : ∀ e ∈ es, Role.ofTag e.tag = .declarations) : visitAll p f s es = s := by
  induction es with
  | nil => rfl
  | cons e es ih =>
    rw [visitAll, visit_declarations p f s (h e List.mem_cons_self)]
    exact ih fun x hx => h x (List.mem_cons_of_mem e hx)

end

theorem checkConstraints_parallel (p : Program) (f g : Frame) (s s' : Session)
    (names : List String) :
    Parallel f g s (s.checkConstraints p names) s' (s'.checkConstraints p names) := by
  unfold checkConstraints
  generalize names.filterMap p.rules.get? = rules
  induction rules generalizing s s' with
  | nil => exact .refl f g s s'
  | cons r rules ih =>
    rw [List.foldl_cons, List.foldl_cons]
    have hhead : Parallel f g s (s.absorb r.line (Construct.constraint p r))
        s' (s'.absorb r.line (Construct.constraint p r)) := by
      refine ⟨⟨_, _, .absorb f s r.line _, .absorb g s' r.line _⟩, fun hgen => ?_⟩
      rw [generated_absorb, generated_absorb]
      exact hgen
    exact hhead.trans (ih _ _)

end Session

end Premise
