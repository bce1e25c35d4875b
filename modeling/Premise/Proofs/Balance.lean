import Premise.Engine
import Premise.Proofs.Activation
import Premise.Proofs.Lines
import Premise.Proofs.Session
import Premise.Proofs.Table

/-!
What evaluating leaves as it found it, and what it only adds to.

`Visits` follows the elements of a document with the levels that were entered at hand, which
`Session.visit` has no need of, since it starts every construct on the first level
(`visits_context`). Evaluating an expression keeps a context but for the faults and the lines of the
active buffer (`Context.Keeps`), on whatever way it ends; an element, its failing constructs
included, at most appends to what is there (`Context.Grows`).
-/

namespace Premise

/-! ### Sessions that grow -/

/-- Lines were only appended: to the headers, to the finished buffers and to the active one. -/
structure Trace.Grows (t u : Trace) : Prop where
  headers : t.headers <+: u.headers
  finished : t.finished <+: u.finished
  /-- a buffer stays active or none does -/
  active : Option.Rel (· <+: ·) t.active u.active

namespace Trace

theorem rel_prefix_refl (active : Option (List String)) :
    Option.Rel (· <+: ·) active active := by
  cases active with
  | none => exact .none
  | some buffer => exact .some (List.prefix_refl buffer)

theorem rel_prefix_trans {a b c : Option (List String)} (h : Option.Rel (· <+: ·) a b)
    (k : Option.Rel (· <+: ·) b c) : Option.Rel (· <+: ·) a c := by
  cases h with
  | none => exact k
  | some h =>
    cases k with
    | some k => exact .some (h.trans k)

variable {t u v : Trace}

theorem Grows.refl (t : Trace) : t.Grows t :=
  ⟨List.prefix_refl _, List.prefix_refl _, rel_prefix_refl _⟩

theorem Grows.trans (h : t.Grows u) (k : u.Grows v) : t.Grows v :=
  ⟨h.headers.trans k.headers, h.finished.trans k.finished, rel_prefix_trans h.active k.active⟩

/-- A header and its buffer are appended, and the buffer that was active goes on as it was. -/
theorem Grows.finish {header : String} (h : (t.start header).Grows u) :
    t.Grows (u.finish t.active) := by
  obtain ⟨hheaders, hfinished, hactive⟩ := h
  have hheaders : t.headers <+: u.headers := (List.prefix_append _ _).trans hheaders
  unfold Trace.finish
  cases hu : u.active with
  | none =>
    rw [hu] at hactive
    cases hactive
  | some buffer => exact ⟨hheaders, hfinished.trans (List.prefix_append _ _), rel_prefix_refl _⟩

end Trace

/-- From the first session to the second faults, results and lines were only added. -/
structure Session.Grows (s t : Session) : Prop where
  faults : s.faults <+: t.faults
  writes : s.writes <+: t.writes
  trace : s.trace.Grows t.trace

namespace Session

/-- A failure is a fault at the given line. -/
def close {α : Type} (line : Option Nat) (outcome : Except Fault α) (s : Session) : Session :=
  match outcome with
  | .ok _ => s
  | .error fault => s.report [fault.atLine line]

/-- A value is recorded under a name, and a failure is a fault. -/
def keep (f : Frame) (name : String) (line : Option Nat) (outcome : Except Fault Value)
    (s : Session) : Session :=
  match outcome with
  | .ok v => (s.follow [.binding name v]).record (f.resultName name) v
  | .error fault => s.report [fault.atLine line]

variable {s t u : Session}

theorem faults_follow (s : Session) (steps : List Step) : (s.follow steps).faults = s.faults := by
  unfold follow
  split <;> rfl

theorem writes_follow (s : Session) (steps : List Step) : (s.follow steps).writes = s.writes := by
  unfold follow
  split <;> rfl

theorem Appends.grows {lines : List String} (h : Appends s t lines) : s.trace.Grows t.trace := by
  refine ⟨h.headers ▸ List.prefix_refl _, h.finished ▸ List.prefix_refl _, ?_⟩
  rw [h.active]
  cases s.trace.active with
  | none => exact .none
  | some buffer => exact .some (List.prefix_append buffer lines)

namespace Grows

theorem refl (s : Session) : s.Grows s := ⟨List.prefix_refl _, List.prefix_refl _, .refl _⟩

theorem trans (h : s.Grows t) (k : t.Grows u) : s.Grows u :=
  ⟨h.faults.trans k.faults, h.writes.trans k.writes, h.trace.trans k.trace⟩

theorem report (s : Session) (faults : List Fault) : s.Grows (s.report faults) :=
  ⟨List.prefix_append _ _, List.prefix_refl _, .refl _⟩

theorem record (s : Session) (name : String) (v : Value) : s.Grows (s.record name v) :=
  ⟨List.prefix_refl _, List.prefix_append _ _, .refl _⟩

theorem follow (s : Session) (steps : List Step) : s.Grows (s.follow steps) :=
  ⟨s.faults_follow steps ▸ List.prefix_refl _, s.writes_follow steps ▸ List.prefix_refl _,
    (Appends.follow s steps).grows⟩

theorem nameOf (s : Session) (e : Element) : s.Grows (s.nameOf e).2 := by
  unfold Session.nameOf
  split
  · exact refl s
  · exact ⟨List.prefix_refl _, List.prefix_refl _, .refl _⟩

theorem close {α : Type} (line : Option Nat) (outcome : Except Fault α) (s : Session) :
    s.Grows (s.close line outcome) := by
  cases outcome with
  | ok a => exact refl s
  | error fault => exact report s _

theorem keep (f : Frame) (name : String) (line : Option Nat) (outcome : Except Fault Value)
    (s : Session) : s.Grows (s.keep f name line outcome) := by
  cases outcome with
  | ok v => exact (follow s _).trans (record _ _ v)
  | error fault => exact report s _

theorem ofGains {f : Frame} {faults : List Fault} {writes : List (String × Value)}
    {lines : List String} (h : Gains f s t faults writes) (k : Appends s t lines) : s.Grows t := by
  refine ⟨?_, ?_, k.grows⟩
  · rw [h.faults]
    exact List.prefix_append _ _
  · rw [h.writes]
    exact List.prefix_append _ _

theorem domain (p : Program) (f : Frame) (s : Session) (e : Element) :
    s.Grows (s.domain p f e) := by
  obtain ⟨faults, writes, h⟩ := Gains.domain p e
  exact ofGains (h f s) (.domain p f s e)

theorem enterBranch (p : Program) (f : Frame) (s : Session) (e : Element) :
    s.Grows (s.enterBranch p f e).2 :=
  ofGains (.enterBranch p f f s e) (.enterBranch p f s e)

/-- Of a name that a result goes by there is always one. -/
theorem names (h : s.Grows t) : s.results.names ⊆ t.results.names := by
  obtain ⟨more, hmore⟩ := h.writes
  unfold results Table.ofList
  rw [← hmore, Table.insertAll_append]
  exact Table.names_subset_insertAll _ more

end Grows

end Session

/-! ### Evaluating elements, with the levels that were entered -/

namespace Context

def update (c : Context) (act : Session → Session) : Context := { c with session := act c.session }

def named (c : Context) (e : Element) : Context := c.update fun s => (s.nameOf e).2

/-- Starts a buffer under a header. -/
def start (c : Context) (header : String) : Context :=
  c.update fun s => { s with trace := s.trace.start header }

/-- Finishes the active buffer, and goes on with the one that was active before. -/
def finish (c : Context) (previous : Context) : Context :=
  c.update fun s => { s with trace := s.trace.finish previous.session.trace.active }

end Context

/-- The script leads from the first context to one where its outcome is dealt with. -/
def Settles (rules : Rulebook) {α : Type} (c : Context) (script : Script α)
    (settle : Except Fault α → Session → Session) (d : Context) : Prop :=
  ∃ activations outcome m, Performs rules c script activations outcome m ∧
    d = m.update (settle outcome)

/-- The relation leads to a context where the buffer that was started from the first is finished. -/
def Finishes (c : Context) (relation : Context → Prop) (d : Context) : Prop :=
  ∃ m, relation m ∧ d = m.finish c

/-- Evaluating the query leads from the first context to the other. -/
def VisitsQuery (p : Program) (f : Frame) (c : Context) (e : Element) (d : Context) : Prop :=
  let name := (c.session.nameOf e).1
  if e.attribute? "trace" = some "full" ∧ !(c.named e).session.trace.isActive then
    Finishes (c.named e) (Settles p.rules ((c.named e).start s!"trace query '{name}'")
      (Script.query p f e) (Session.keep f name e.line)) d
  else Settles p.rules (c.named e) (Script.query p f e) (Session.keep f name e.line) d

mutual

/-- Evaluating the element leads from the first context to the other. -/
def Visits (p : Program) (f : Frame) (c : Context) : Element → Context → Prop
  | ⟨tag, attributes, children, text, line⟩, d =>
    let e : Element := ⟨tag, attributes, children, text, line⟩
    let name := (c.session.nameOf e).1
    match Role.ofTag tag with
    | .declarations => d = c
    | .evaluated => VisitsAll p f c children d
    | .simulated => Simulates p f c children d
    | .query => VisitsQuery p f c e d
    | .quantifier universal =>
      Settles p.rules (c.named e) (Script.quantifier p f universal e) (Session.keep f name line) d
    | .aggregate =>
      Settles p.rules (c.named e) (Script.ofRun (Construct.aggregate f e))
        (Session.keep f name line) d
    | .assertion => Settles p.rules c (Script.assertion p f e) (Session.close line) d
    | .branch =>
      VisitsAll p (c.session.enterBranch p f e).1 (c.update fun s => (s.enterBranch p f e).2)
        children d
    | .domain => d = c.update fun s => s.domain p f e

def VisitsAll (p : Program) (f : Frame) (c : Context) : List Element → Context → Prop
  | [], d => d = c
  | e :: es, d => ∃ m, Visits p f c e m ∧ VisitsAll p f m es d

/-- From first to last, each under a trace header of its own. -/
def Simulates (p : Program) (f : Frame) (c : Context) : List Element → Context → Prop
  | [], d => d = c
  | e :: es, d => ∃ m, Finishes c (Visits p f (c.start (Session.simulationHeader e)) e) m ∧
    Simulates p f m es d

end

/-! ### What is kept and what grows -/

namespace Context

/-- From the first context to the second some faults may have been reported and some lines appended
to the active buffer, and nothing else has changed. -/
structure Keeps (c d : Context) : Prop where
  depth : d.depth = c.depth
  writes : d.session.writes = c.session.writes
  generated : d.session.generated = c.session.generated
  headers : d.session.trace.headers = c.session.trace.headers
  finished : d.session.trace.finished = c.session.trace.finished
  faults : c.session.faults <+: d.session.faults
  active : Option.Rel (· <+: ·) c.session.trace.active d.session.trace.active

/-- The levels are as they were, and the session has grown. -/
structure Grows (c d : Context) : Prop where
  depth : d.depth = c.depth
  session : c.session.Grows d.session

variable {c d e : Context}

namespace Keeps

theorem refl (c : Context) : c.Keeps c :=
  ⟨rfl, rfl, rfl, rfl, rfl, List.prefix_refl _, Trace.rel_prefix_refl _⟩

theorem trans (h : c.Keeps d) (k : d.Keeps e) : c.Keeps e :=
  ⟨k.depth.trans h.depth, k.writes.trans h.writes, k.generated.trans h.generated,
    k.headers.trans h.headers, k.finished.trans h.finished, h.faults.trans k.faults,
    Trace.rel_prefix_trans h.active k.active⟩

theorem report (c : Context) (faults : List Fault) :
    c.Keeps { c with session := c.session.report faults } :=
  ⟨rfl, rfl, rfl, rfl, rfl, List.prefix_append _ _, Trace.rel_prefix_refl _⟩

theorem follow (c : Context) (steps : List Step) :
    c.Keeps { c with session := c.session.follow steps } := by
  have hlines := Session.Appends.follow c.session steps
  exact ⟨rfl, c.session.writes_follow steps, c.session.generated_follow steps, hlines.headers,
    hlines.finished, c.session.faults_follow steps ▸ List.prefix_refl _, hlines.grows.active⟩

theorem tell (c : Context) (faults : List Fault) (steps : List Step) :
    c.Keeps (c.tell faults steps) := (report c faults).trans (follow _ steps)

/-- What is done on a level keeps the context that the level was entered from. -/
theorem leave {deeper : Depth} (henter : c.depth.enter? = some deeper)
    (h : ({ c with depth := deeper } : Context).Keeps d) : c.Keeps d.leave := by
  refine ⟨?_, h.writes, h.generated, h.headers, h.finished, h.faults, h.active⟩
  show d.depth.leave = c.depth
  rw [h.depth]
  exact Depth.leave_of_enter? henter

theorem grows (h : c.Keeps d) : c.Grows d :=
  ⟨h.depth, h.faults, h.writes ▸ List.prefix_refl _, h.headers ▸ List.prefix_refl _,
    h.finished ▸ List.prefix_refl _, h.active⟩

end Keeps

namespace Grows

theorem refl (c : Context) : c.Grows c := ⟨rfl, .refl _⟩

theorem trans (h : c.Grows d) (k : d.Grows e) : c.Grows e :=
  ⟨k.depth.trans h.depth, h.session.trans k.session⟩

theorem update {act : Session → Session} (h : ∀ s : Session, s.Grows (act s)) (c : Context) :
    c.Grows (c.update act) := ⟨rfl, h c.session⟩

theorem finish {header : String} (h : (c.start header).Grows d) : c.Grows (d.finish c) :=
  ⟨h.depth, h.session.faults, h.session.writes, h.session.trace.finish⟩

end Grows

end Context

mutual

theorem Evaluates.keeps {rules : Rulebook} {c d scope e activation answer} :
    Evaluates rules c scope e activation answer d → c.Keeps d
  | .refused _ => .refl _
  | .entered henter hnode => hnode.keeps.leave henter

theorem Performs.keeps {rules : Rulebook} {α c d activations outcome} {script : Script α} :
    Performs rules c script activations outcome d → c.Keeps d
  | .finish => .refl _
  | .tell hrest => (Context.Keeps.tell _ _ _).trans hrest.keeps
  | .failed hfirst => hfirst.keeps
  | .answered hfirst hrest => hfirst.keeps.trans hrest.keeps

end

/-- The relation leads from the context to one other only, and the session grows on the way. -/
def Context.Leads (c : Context) (relation : Context → Prop) : Prop :=
  ∃ d, (∀ d', relation d' ↔ d' = d) ∧ c.Grows d

namespace Context.Leads

variable {c : Context} {relation : Context → Prop}

theorem of_grows {d : Context} (h : c.Grows d) : c.Leads (· = d) := ⟨d, fun _ => Iff.rfl, h⟩

theorem grows {d : Context} (h : c.Leads relation) (hd : relation d) : c.Grows d := by
  obtain ⟨e, honly, hgrows⟩ := h
  rw [(honly d).mp hd]
  exact hgrows

theorem of_grows_of_leads {d : Context} (h : c.Grows d) (k : d.Leads relation) :
    c.Leads relation := by
  obtain ⟨e, honly, hgrows⟩ := k
  exact ⟨e, honly, h.trans hgrows⟩

theorem bind {next : Context → Context → Prop} (h : c.Leads relation)
    (hnext : ∀ m : Context, m.Leads (next m)) : c.Leads fun d => ∃ m, relation m ∧ next m d := by
  obtain ⟨m, honly, hgrows⟩ := h
  obtain ⟨d, hnextOnly, hnextGrows⟩ := hnext m
  refine ⟨d, fun d' => ⟨?_, fun h => ⟨m, (honly m).mpr rfl, (hnextOnly d').mpr h⟩⟩,
    hgrows.trans hnextGrows⟩
  rintro ⟨m', hm', hd'⟩
  rw [(honly m').mp hm'] at hd'
  exact (hnextOnly d').mp hd'

theorem finishes {header : String} (h : (c.start header).Leads relation) :
    c.Leads (Finishes c relation) := by
  obtain ⟨m, honly, hgrows⟩ := h
  refine ⟨m.finish c, fun d => ⟨?_, ?_⟩, hgrows.finish⟩
  · rintro ⟨m', hm', rfl⟩
    rw [(honly m').mp hm']
  · rintro rfl
    exact ⟨m, (honly m).mpr rfl, rfl⟩

theorem settles {rules : Rulebook} {α : Type} {script : Script α}
    {settle : Except Fault α → Session → Session}
    (h : ∀ outcome (s : Session), s.Grows (settle outcome s)) (c : Context) :
    c.Leads (Settles rules c script settle) := by
  obtain ⟨activations, outcome, m, hperforms⟩ :
      ∃ activations outcome m, Performs rules c script activations outcome m :=
    (ends_run rules script c).imp fun _ hperforms => ⟨_, _, hperforms⟩
  have hsettled := Grows.update (h outcome) m
  refine ⟨m.update (settle outcome), fun d => ⟨?_, ?_⟩, hperforms.keeps.grows.trans hsettled⟩
  · rintro ⟨activations', outcome', m', hperforms', rfl⟩
    obtain ⟨-, rfl, rfl⟩ := hperforms.unique hperforms'
    rfl
  · rintro rfl
    exact ⟨activations, outcome, m, hperforms, rfl⟩

end Context.Leads

section

variable (p : Program)

theorem leads_visitsQuery (f : Frame) (c : Context) (e : Element) :
    c.Leads (VisitsQuery p f c e) := by
  refine .of_grows_of_leads (.update (.nameOf · e) c) ?_
  unfold VisitsQuery
  simp only
  split
  · exact .finishes (.settles (.keep f _ _) _)
  · exact .settles (.keep f _ _) _

mutual

/-- Every element is evaluated to an end, whatever fails in it. -/
theorem leads_visits (f : Frame) (c : Context) (e : Element) : c.Leads (Visits p f c e) := by
  cases e with
  | mk tag attributes children text line =>
    let e : Element := ⟨tag, attributes, children, text, line⟩
    have hname : c.Grows (c.named e) := .update (.nameOf · e) c
    show c.Leads fun d => Visits p f c ⟨tag, attributes, children, text, line⟩ d
    simp only [Visits]
    cases Role.ofTag tag with
    | declarations => exact .of_grows (.refl c)
    | evaluated => exact leads_visitsAll f c children
    | simulated => exact leads_simulates f c children
    | query => exact leads_visitsQuery p f c e
    | quantifier universal => exact .of_grows_of_leads hname (.settles (.keep f _ line) _)
    | aggregate => exact .of_grows_of_leads hname (.settles (.keep f _ line) _)
    | assertion => exact .settles (.close line) c
    | branch =>
      exact .of_grows_of_leads (.update (.enterBranch p f · e) c) (leads_visitsAll _ _ children)
    | domain => exact .of_grows (.update (.domain p f · e) c)

theorem leads_visitsAll (f : Frame) (c : Context) (es : List Element) :
    c.Leads (VisitsAll p f c es) := by
  cases es with
  | nil =>
    show c.Leads fun d => VisitsAll p f c [] d
    simp only [VisitsAll]
    exact .of_grows (.refl c)
  | cons e es =>
    show c.Leads fun d => VisitsAll p f c (e :: es) d
    simp only [VisitsAll]
    exact (leads_visits f c e).bind fun m => leads_visitsAll f m es

theorem leads_simulates (f : Frame) (c : Context) (es : List Element) :
    c.Leads (Simulates p f c es) := by
  cases es with
  | nil =>
    show c.Leads fun d => Simulates p f c [] d
    simp only [Simulates]
    exact .of_grows (.refl c)
  | cons e es =>
    show c.Leads fun d => Simulates p f c (e :: es) d
    simp only [Simulates]
    exact (leads_visits f _ e).finishes.bind fun m => leads_simulates f m es

end

/-! ### The same without the levels -/

namespace Session

theorem absorb_eq {α : Type} (s : Session) (line : Option Nat) (r : Run α) :
    s.absorb line r = ((s.report r.faults).follow r.steps).close line r.outcome := by
  unfold absorb close
  cases r.outcome <;> rfl

theorem conclude_eq (s : Session) (f : Frame) (name : String) (line : Option Nat) (r : Run Value) :
    s.conclude f name line r =
      ((s.report r.faults).follow r.steps).keep f name line r.outcome := by
  unfold conclude absorb keep
  cases r.outcome <;> rfl

section

variable (f : Frame) (s : Session)

theorem settles_conclude (name : String) (line : Option Nat) (script : Script Value) :
    Settles p.rules (s.context p) script (keep f name line)
      ((s.conclude f name line (script.run p.evaluate)).context p) := by
  obtain ⟨activations, h⟩ := s.ends_script p script
  rw [conclude_eq]
  exact ⟨activations, _, _, h, rfl⟩

theorem settles_absorb {α : Type} (line : Option Nat) (script : Script α) :
    Settles p.rules (s.context p) script (close line)
      ((s.absorb line (script.run p.evaluate)).context p) := by
  obtain ⟨activations, h⟩ := s.ends_script p script
  rw [absorb_eq]
  exact ⟨activations, _, _, h, rfl⟩

theorem visitsQuery_context (e : Element) :
    VisitsQuery p f (s.context p) e ((s.query p f e).context p) := by
  rw [query_eq, ← Script.run_query]
  by_cases htraced : e.attribute? "trace" = some "full" ∧ !(s.nameOf e).2.trace.isActive
  · rw [if_pos htraced]
    exact (if_pos htraced).mpr ⟨_, settles_conclude p f _ _ _ _, rfl⟩
  · rw [if_neg htraced]
    exact (if_neg htraced).mpr (settles_conclude p f _ _ _ _)

end

mutual

theorem visits_context (f : Frame) (s : Session) (e : Element) :
    Visits p f (s.context p) e ((visit p f s e).context p) := by
  cases e with
  | mk tag attributes children text line =>
    let e : Element := ⟨tag, attributes, children, text, line⟩
    unfold Visits visit
    simp only
    cases Role.ofTag tag with
    | declarations | domain => rfl
    | evaluated => exact visitsAll_context f s children
    | simulated => exact simulates_context f s children
    | query => exact visitsQuery_context p f s e
    | quantifier universal =>
      simp only [← Script.run_quantifier]
      exact settles_conclude p f _ _ line _
    | aggregate =>
      have haggregate := settles_conclude p f (s.nameOf e).2 (s.nameOf e).1 line
        (Script.ofRun (Construct.aggregate f e))
      rw [Script.run_ofRun] at haggregate
      exact haggregate
    | assertion =>
      simp only [← Script.run_assertion]
      exact settles_absorb p s line _
    | branch => exact visitsAll_context _ (s.enterBranch p f e).2 children

theorem visitsAll_context (f : Frame) (s : Session) (es : List Element) :
    VisitsAll p f (s.context p) es ((visitAll p f s es).context p) := by
  cases es with
  | nil =>
    unfold VisitsAll visitAll
    rfl
  | cons e es =>
    unfold VisitsAll visitAll
    exact ⟨_, visits_context f s e, visitsAll_context f _ es⟩

theorem simulates_context (f : Frame) (s : Session) (es : List Element) :
    Simulates p f (s.context p) es ((simulateAll p f s es).context p) := by
  cases es with
  | nil =>
    unfold Simulates simulateAll
    rfl
  | cons e es =>
    unfold Simulates simulateAll
    exact ⟨_, ⟨_, visits_context f _ e, rfl⟩, simulates_context f _ es⟩

end

/-! ### Whole documents -/

namespace Grows

theorem absorb {α : Type} (s : Session) (line : Option Nat) (r : Run α) :
    s.Grows (s.absorb line r) := by
  rw [absorb_eq]
  exact (report s _).trans ((follow _ _).trans (close line _ _))

theorem visitAll (f : Frame) (s : Session) (es : List Element) :
    s.Grows (Session.visitAll p f s es) :=
  ((leads_visitsAll p f _ es).grows (visitsAll_context p f s es)).session

theorem foldl {β : Type} {act : Session → β → Session} (h : ∀ (s : Session) b, s.Grows (act s b))
    (bs : List β) (s : Session) : s.Grows (bs.foldl act s) := by
  induction bs generalizing s with
  | nil => exact refl s
  | cons b bs ih => exact (h s b).trans (ih _)

theorem evaluateDocument (scope : Scope) (space : Option String) (constraints : List String)
    (s : Session) (root : Element) :
    s.Grows (s.evaluateDocument p scope space constraints root) :=
  (foldl (fun s (r : Rule) => absorb s r.line _) _ s).trans (visitAll p _ _ root.children)

end Grows

end Session

end

namespace Engine

theorem grows_run (engine : Engine) (linked : Linked) (root : Element) :
    ({ faults := linked.faults } : Session).Grows (engine.run linked root) := by
  refine (Session.Grows.foldl (fun s (i : FullImport) => ?_) _ _).trans
    (.evaluateDocument _ _ none linked.constraints _ root)
  exact .evaluateDocument _ _ i.space i.constraints s i.root

/-- What linking reports is reported first by evaluating. -/
theorem faults_link_prefix (engine : Engine) (document : Option Element) (source : Option String) :
    (engine.link document source).faults <+: (engine.evaluate document source).faults := by
  unfold link evaluate
  cases engine.check document with
  | error error => exact List.prefix_refl _
  | ok root => exact (engine.grows_run (engine.linkChecked root source) root).faults

/-- Evaluating leaves contexts balanced, on whatever way it ends: an expression keeps all but the
faults and the active buffer, which grow, an element makes the session grow and keeps the levels,
and where no level has been entered it does what `Session.visit` does. -/
theorem evaluation_balanced :
    (∀ (rules : Rulebook) (c : Context) (scope : Scope) (e : Expr Mark),
      ∃ activation answer d,
        (∀ activation' answer' d', Evaluates rules c scope e activation' answer' d' ↔
          activation' = activation ∧ answer' = answer ∧ d' = d) ∧
        c.Keeps d ∧ d.session.results = c.session.results) ∧
    (∀ (p : Program) (f : Frame) (c : Context) (e : Element),
      ∃ d, (∀ d', Visits p f c e d' ↔ d' = d) ∧
        c.Grows d ∧ c.session.results.names ⊆ d.session.results.names) ∧
    (∀ (p : Program) (f : Frame) (s : Session) (e : Element) (d : Context),
      Visits p f (s.context p) e d ↔ d = (Session.visit p f s e).context p) ∧
    (∀ (engine : Engine) (document : Option Element) (source : Option String),
      (engine.link document source).faults <+: (engine.evaluate document source).faults) := by
  refine ⟨fun rules c scope e => ?_, fun p f c e => ?_, fun p f s e d => ?_, faults_link_prefix⟩
  · obtain ⟨activation, h⟩ := answers_evaluateAt rules c rfl rfl scope e
    refine ⟨activation, _, _, fun activation' answer d => ⟨fun h' => h.unique h', ?_⟩, h.keeps, ?_⟩
    · rintro ⟨rfl, rfl, rfl⟩
      exact h
    · exact congrArg Table.ofList h.keeps.writes
  · obtain ⟨d, honly, hgrows⟩ := leads_visits p f c e
    exact ⟨d, honly, hgrows, hgrows.session.names⟩
  · obtain ⟨e', honly, -⟩ := leads_visits p f (s.context p) e
    rw [honly d, (honly _).mp (Session.visits_context p f s e)]

end Engine

end Premise
