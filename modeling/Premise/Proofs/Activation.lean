import Premise.Proofs.Script
import Premise.Session

/-!
Activations: the evaluations that are started while something is evaluated, and those started by
them.

`Performs` follows the script of a construct or of a node. Each evaluation enters a level before it
does anything, does what its node does, and leaves the level again, whether it has come to a value
or not; one that finds no level left ends there. What is done between two levels is finite, and the
levels that are left are fewer by one on each, so every script comes to an end (`ends_run`), also
where rules evaluate themselves or one another. `AnswersWithin` and `EndsWithin` are what comes of
it: how deep the activations can nest, and what becomes of those that find no level left.
-/

namespace Premise

/-- An evaluation that found no level left, or one that entered a level and what it started
there. -/
inductive Activation where
  | refused
  | entered (inner : List Activation)

namespace Activation

mutual

/-- How many activations stand in one another that entered a level. -/
def height : Activation → Nat
  | .refused => 0
  | .entered inner => heights inner + 1

def heights : List Activation → Nat
  | [] => 0
  | a :: as => max a.height (heights as)

end

mutual

/-- Whether some evaluation in it found no level left. -/
def refuses : Activation → Bool
  | .refused => true
  | .entered inner => refusesAny inner

def refusesAny : List Activation → Bool
  | [] => false
  | a :: as => a.refuses || refusesAny as

end

end Activation

/-- Where an evaluation stands: the session so far and the levels that were entered. -/
structure Context where
  session : Session
  depth : Depth

namespace Context

def tell (c : Context) (faults : List Fault) (steps : List Step) : Context :=
  { c with session := (c.session.report faults).follow steps }

def leave (c : Context) : Context := { c with depth := c.depth.leave }

end Context

mutual

/-- Evaluating the expression leads from the first context to the last, like this. -/
inductive Evaluates (rules : Rulebook) :
    Context → Scope → Expr Mark → Activation → Except Fault Value → Context → Prop
  /-- no level is left, and nothing is done -/
  | refused {c : Context} {scope : Scope} {e : Expr Mark} (henter : c.depth.enter? = none) :
    Evaluates rules c scope e .refused (.error (depthFault c.depth.limit e.mark.line)) c
  /-- the level is left again whatever comes of the node -/
  | entered {c d : Context} {scope : Scope} {e : Expr Mark} {deeper : Depth}
      {inner : List Activation} {outcome : Except Fault Value}
      (henter : c.depth.enter? = some deeper)
      (hnode : Performs rules { c with depth := deeper } (Script.node rules scope e) inner
        outcome d) :
    Evaluates rules c scope e (.entered inner)
      (outcome.mapError (Fault.orLine · e.mark.line)) d.leave

/-- The script leads from the first context to the last, and starts these evaluations. -/
inductive Performs (rules : Rulebook) :
    {α : Type} → Context → Script α → List Activation → Except Fault α → Context → Prop
  | finish {α : Type} {c : Context} {outcome : Except Fault α} :
    Performs rules c (.finish outcome) [] outcome c
  | tell {α : Type} {c d : Context} {faults : List Fault} {steps : List Step} {rest : Script α}
      {activations : List Activation} {outcome : Except Fault α}
      (hrest : Performs rules (c.tell faults steps) rest activations outcome d) :
    Performs rules c (.tell faults steps rest) activations outcome d
  | failed {α : Type} {c d : Context} {scope : Scope} {e : Expr Mark} {rest : Value → Script α}
      {activation : Activation} {fault : Fault}
      (hfirst : Evaluates rules c scope e activation (.error fault) d) :
    Performs rules c (.evaluate scope e rest) [activation] (.error fault) d
  | answered {α : Type} {c d d' : Context} {scope : Scope} {e : Expr Mark}
      {rest : Value → Script α} {activation : Activation} {activations : List Activation}
      {v : Value} {outcome : Except Fault α}
      (hfirst : Evaluates rules c scope e activation (.ok v) d)
      (hrest : Performs rules d (rest v) activations outcome d') :
    Performs rules c (.evaluate scope e rest) (activation :: activations) outcome d'

end

/-! ### What every ending has in common -/

theorem depthFault_orLine (limit : Nat) (line line' : Option Nat) :
    (depthFault limit line).orLine line' = depthFault limit (line.or line') := by
  cases line <;> cases line' <;> rfl

section

variable {rules : Rulebook}

mutual

/-- Levels are left as they were found, after failures too. -/
theorem Evaluates.depth_eq {c d scope e activation answer} :
    Evaluates rules c scope e activation answer d → d.depth = c.depth
  | .refused _ => rfl
  | .entered henter hnode =>
    (congrArg Depth.leave hnode.depth_eq).trans (Depth.leave_of_enter? henter)

theorem Performs.depth_eq {α c d activations outcome} {script : Script α} :
    Performs rules c script activations outcome d → d.depth = c.depth
  | .finish => rfl
  | .tell hrest => hrest.depth_eq
  | .failed hfirst => hfirst.depth_eq
  | .answered hfirst hrest => hrest.depth_eq.trans hfirst.depth_eq

end

mutual

theorem Evaluates.height_le {c d scope e activation answer} :
    Evaluates rules c scope e activation answer d → activation.height ≤ c.depth.remaining
  | .refused _ => Nat.zero_le _
  | .entered henter hnode => by
    have hbelow := hnode.heights_le
    have hlevel := Depth.remaining_of_enter? henter
    simp only [Activation.height] at hbelow ⊢
    omega

theorem Performs.heights_le {α c d activations outcome} {script : Script α} :
    Performs rules c script activations outcome d →
      Activation.heights activations ≤ c.depth.remaining
  | .finish => Nat.zero_le _
  | .tell hrest => hrest.heights_le
  | .failed hfirst => Nat.max_le.mpr ⟨hfirst.height_le, Nat.zero_le _⟩
  | .answered hfirst hrest => by
    have hbehind := hrest.heights_le
    rw [hfirst.depth_eq] at hbehind
    exact Nat.max_le.mpr ⟨hfirst.height_le, hbehind⟩

end

mutual

/-- The fault of a missing level is passed on, however far below it came up. -/
theorem Evaluates.answer_of_refuses {c d scope e activation answer} :
    Evaluates rules c scope e activation answer d → activation.refuses = true →
      ∃ line, answer = .error (depthFault c.depth.limit line)
  | .refused _, _ => ⟨_, rfl⟩
  | .entered henter hnode, hrefuses => by
    obtain ⟨line, hline⟩ := hnode.outcome_of_refusesAny hrefuses
    have hlimit := congrArg Depth.limit (Depth.leave_of_enter? henter)
    refine ⟨line.or e.mark.line, ?_⟩
    rw [hline, ← hlimit, ← depthFault_orLine]
    rfl

theorem Performs.outcome_of_refusesAny {α c d activations outcome} {script : Script α} :
    Performs rules c script activations outcome d → Activation.refusesAny activations = true →
      ∃ line, outcome = .error (depthFault c.depth.limit line)
  | .finish, hrefuses => by cases hrefuses
  | .tell hrest, hrefuses => hrest.outcome_of_refusesAny hrefuses
  | .failed hfirst, hrefuses => by
    simp only [Activation.refusesAny, Bool.or_false] at hrefuses
    obtain ⟨line, hline⟩ := hfirst.answer_of_refuses hrefuses
    cases hline
    exact ⟨line, rfl⟩
  | .answered hfirst hrest, hrefuses => by
    simp only [Activation.refusesAny, Bool.or_eq_true] at hrefuses
    rcases hrefuses with hrefuses | hrefuses
    · obtain ⟨line, hline⟩ := hfirst.answer_of_refuses hrefuses
      cases hline
    · rw [← hfirst.depth_eq]
      exact hrest.outcome_of_refusesAny hrefuses

end

mutual

theorem Evaluates.unique {c d scope e activation answer} :
    Evaluates rules c scope e activation answer d → ∀ ⦃activation' answer' d'⦄,
      Evaluates rules c scope e activation' answer' d' →
        activation' = activation ∧ answer' = answer ∧ d' = d
  | .refused henter => by
    intro _ _ _ h'
    cases h' with
    | refused => exact ⟨rfl, rfl, rfl⟩
    | entered henter' =>
      rw [henter] at henter'
      cases henter'
  | .entered henter hnode => by
    -- taken before the second derivation is, whose cases would hide that this one is smaller
    have ih := hnode.unique
    intro _ _ _ h'
    cases h' with
    | refused henter' =>
      rw [henter] at henter'
      cases henter'
    | entered henter' hnode' =>
      rw [henter] at henter'
      cases henter'
      obtain ⟨rfl, rfl, rfl⟩ := ih hnode'
      exact ⟨rfl, rfl, rfl⟩

theorem Performs.unique {α c d activations outcome} {script : Script α} :
    Performs rules c script activations outcome d → ∀ ⦃activations' outcome' d'⦄,
      Performs rules c script activations' outcome' d' →
        activations' = activations ∧ outcome' = outcome ∧ d' = d
  | .finish => by
    intro _ _ _ h'
    cases h'
    exact ⟨rfl, rfl, rfl⟩
  | .tell hrest => by
    have ih := hrest.unique
    intro _ _ _ h'
    cases h' with
    | tell hrest' => exact ih hrest'
  | .failed hfirst => by
    have ih := hfirst.unique
    intro _ _ _ h'
    cases h' with
    | failed hfirst' =>
      obtain ⟨rfl, hanswer, rfl⟩ := ih hfirst'
      cases hanswer
      exact ⟨rfl, rfl, rfl⟩
    | answered hfirst' =>
      obtain ⟨-, hanswer, -⟩ := ih hfirst'
      cases hanswer
  | .answered hfirst hrest => by
    have ih := hfirst.unique
    have ihrest := hrest.unique
    intro _ _ _ h'
    cases h' with
    | failed hfirst' =>
      obtain ⟨-, hanswer, -⟩ := ih hfirst'
      cases hanswer
    | answered hfirst' hrest' =>
      obtain ⟨rfl, hanswer, rfl⟩ := ih hfirst'
      cases hanswer
      obtain ⟨rfl, rfl, rfl⟩ := ihrest hrest'
      exact ⟨rfl, rfl, rfl⟩

end

end

/-! ### Everything comes to an end -/

namespace Session

theorem report_nil (s : Session) : s.report [] = s := by
  show { s with faults := s.faults ++ [] } = s
  rw [List.append_nil]

theorem follow_nil (s : Session) : s.follow [] = s := by
  unfold follow Trace.add
  split
  · cases hactive : s.trace.active with
    | none => rfl
    | some buffer =>
      show { s with trace := { s.trace with active := some (buffer ++ []) } } = s
      rw [List.append_nil, ← hactive]
  · rfl

theorem report_report (s : Session) (faults more : List Fault) :
    (s.report faults).report more = s.report (faults ++ more) := by
  show { s with faults := s.faults ++ faults ++ more } = _
  rw [List.append_assoc]
  rfl

theorem report_follow (s : Session) (steps : List Step) (faults : List Fault) :
    (s.follow steps).report faults = (s.report faults).follow steps := by
  unfold follow
  show _ = if s.trace.isActive then _ else _
  split <;> rfl

theorem follow_follow (s : Session) (steps further : List Step) :
    (s.follow steps).follow further = s.follow (steps ++ further) := by
  unfold follow Trace.isActive Trace.add
  cases hactive : s.trace.active with
  | none => simp [hactive]
  | some buffer => simp [List.append_assoc]

end Session

namespace Context

/-- What is left of a run besides its outcome. -/
def after {α : Type} (c : Context) (r : Run α) : Context := c.tell r.faults r.steps

theorem tell_nil (c : Context) : c.tell [] [] = c := by
  unfold tell
  rw [Session.report_nil, Session.follow_nil]

theorem tell_tell (c : Context) (faults more : List Fault) (steps further : List Step) :
    (c.tell faults steps).tell more further = c.tell (faults ++ more) (steps ++ further) := by
  show { c with session := (((c.session.report faults).follow steps).report more).follow further }
    = { c with session := _ }
  rw [Session.report_follow, Session.follow_follow, Session.report_report]

theorem after_after {α β : Type} (c : Context) (r : Run α) (r' : Run β) :
    (c.after r).after r' = c.after (r'.after r.faults r.steps) := c.tell_tell ..

theorem leave_after {α : Type} {c : Context} {deeper : Depth}
    (henter : c.depth.enter? = some deeper) (r : Run α) (line : Option Nat) :
    (after { c with depth := deeper } r).leave = c.after (r.orLine line) := by
  show Context.mk _ deeper.leave = _
  rw [Depth.leave_of_enter? henter]
  rfl

end Context

theorem Depth.enter?_eq_none {d : Depth} (h : d.remaining = 0) : d.enter? = none := by
  unfold remaining at h
  unfold enter?
  rw [if_neg (by omega)]

theorem Depth.exists_enter? {d : Depth} {levels : Nat} (h : d.remaining = levels + 1) :
    ∃ deeper, d.enter? = some deeper ∧ deeper.limit = d.limit ∧ deeper.remaining = levels := by
  unfold remaining at h
  refine ⟨{ d with entered := d.entered + 1 }, if_pos (by omega), rfl, ?_⟩
  show d.limit - (d.entered + 1) = levels
  omega

/-- The expression has an answer from here, and it is that of the run. -/
def Answers (rules : Rulebook) (c : Context) (scope : Scope) (e : Expr Mark) (r : Run Value) :
    Prop :=
  ∃ activation, Evaluates rules c scope e activation r.outcome (c.after r)

/-- The script comes to an end from here, and it is that of the run. -/
def Ends (rules : Rulebook) (c : Context) {α : Type} (script : Script α) (r : Run α) : Prop :=
  ∃ activations, Performs rules c script activations r.outcome (c.after r)

section

variable {rules : Rulebook} {c : Context} {scope : Scope} {e : Expr Mark} {α : Type}

theorem Answers.refused (henter : c.depth.enter? = none) :
    Answers rules c scope e (.fail (depthFault c.depth.limit e.mark.line)) := by
  have hafter : c.after (.fail (depthFault c.depth.limit e.mark.line) : Run Value) = c :=
    c.tell_nil
  rw [Answers, hafter]
  exact ⟨.refused, .refused henter⟩

theorem Answers.entered {deeper : Depth} {r : Run Value} (henter : c.depth.enter? = some deeper)
    (hnode : Ends rules { c with depth := deeper } (Script.node rules scope e) r) :
    Answers rules c scope e (r.orLine e.mark.line) := by
  obtain ⟨inner, hnode⟩ := hnode
  rw [Answers, ← Context.leave_after henter]
  exact ⟨.entered inner, .entered henter hnode⟩

theorem Ends.finish (outcome : Except Fault α) :
    Ends rules c (.finish outcome) ⟨outcome, [], []⟩ := by
  have hafter : c.after (⟨outcome, [], []⟩ : Run α) = c := c.tell_nil
  rw [Ends, hafter]
  exact ⟨[], .finish⟩

theorem Ends.tell {faults : List Fault} {steps : List Step} {rest : Script α} {r : Run α}
    (h : Ends rules (c.tell faults steps) rest r) :
    Ends rules c (.tell faults steps rest) (r.after faults steps) := by
  obtain ⟨activations, hrest⟩ := h
  have hafter : (c.tell faults steps).after r = c.after (r.after faults steps) :=
    c.tell_tell ..
  rw [hafter] at hrest
  exact ⟨activations, .tell hrest⟩

theorem Ends.evaluate {rest : Value → Script α} {r : Run Value} {k : Value → Run α}
    (hfirst : Answers rules c scope e r) (hrest : ∀ v, Ends rules (c.after r) (rest v) (k v)) :
    Ends rules c (.evaluate scope e rest) (r >>= k) := by
  obtain ⟨activation, hfirst⟩ := hfirst
  show Ends rules c _ (r.andThen k)
  cases hanswer : r.outcome with
  | error fault =>
    rw [hanswer] at hfirst
    simp only [Run.andThen, hanswer]
    exact ⟨[activation], .failed hfirst⟩
  | ok v =>
    rw [hanswer] at hfirst
    obtain ⟨activations, hrest⟩ := hrest v
    rw [c.after_after] at hrest
    simp only [Run.andThen, hanswer]
    exact ⟨activation :: activations, .answered hfirst hrest⟩

variable (rules)

/-- Where every evaluation has an answer on so many levels, every script comes to an end there. -/
theorem ends_of_answers {levels limit : Nat}
    (hanswers : ∀ c : Context, c.depth.remaining = levels → c.depth.limit = limit → ∀ scope e,
      Answers rules c scope e (Expr.evaluateAt rules limit levels scope e))
    (script : Script α) (c : Context) (hlevels : c.depth.remaining = levels)
    (hlimit : c.depth.limit = limit) :
    Ends rules c script (script.run (Expr.evaluateAt rules limit levels)) := by
  induction script generalizing c with
  | finish outcome => exact .finish outcome
  | tell faults steps rest ih => exact (ih (c.tell faults steps) hlevels hlimit).tell
  | evaluate scope e rest ih =>
    have hfirst := hanswers c hlevels hlimit scope e
    exact Ends.evaluate hfirst fun v => ih v (c.after _) hlevels hlimit

/-- An evaluation has an answer however many levels are left; the induction is on these. -/
theorem answers_evaluateAt {levels limit : Nat} (c : Context) (hlevels : c.depth.remaining = levels)
    (hlimit : c.depth.limit = limit) (scope : Scope) (e : Expr Mark) :
    Answers rules c scope e (Expr.evaluateAt rules limit levels scope e) := by
  induction levels generalizing c scope e with
  | zero =>
    rw [← hlimit]
    exact .refused (Depth.enter?_eq_none hlevels)
  | succ levels ih =>
    obtain ⟨deeper, henter, hsame, hremaining⟩ := Depth.exists_enter? hlevels
    have hnode := ends_of_answers rules ih (Script.node rules scope e) { c with depth := deeper }
      hremaining (hsame.trans hlimit)
    rw [Script.run_node] at hnode
    exact .entered henter hnode

theorem ends_run (script : Script α) (c : Context) :
    Ends rules c script
      (script.run (Expr.evaluateAt rules c.depth.limit c.depth.remaining)) :=
  ends_of_answers rules (answers_evaluateAt rules) script c rfl rfl

end

/-! ### Within the limit -/

/-- The expression is evaluated in one way only, which is that of the run. No more activations stand
in one another than levels are left, and if one of them finds none, that is what the evaluation
fails with. -/
def AnswersWithin (rules : Rulebook) (c : Context) (scope : Scope) (e : Expr Mark)
    (r : Run Value) : Prop :=
  ∃ activation, (∀ activation' answer d, Evaluates rules c scope e activation' answer d ↔
      activation' = activation ∧ answer = r.outcome ∧ d = c.after r) ∧
    activation.height ≤ c.depth.remaining ∧
    (activation.refuses = true → ∃ line, r.outcome = .error (depthFault c.depth.limit line))

/-- The same of a script. -/
def EndsWithin (rules : Rulebook) (c : Context) {α : Type} (script : Script α) (r : Run α) : Prop :=
  ∃ activations, (∀ activations' outcome d, Performs rules c script activations' outcome d ↔
      activations' = activations ∧ outcome = r.outcome ∧ d = c.after r) ∧
    Activation.heights activations ≤ c.depth.remaining ∧
    (Activation.refusesAny activations = true →
      ∃ line, r.outcome = .error (depthFault c.depth.limit line))

theorem Answers.within {rules : Rulebook} {c : Context} {scope : Scope} {e : Expr Mark}
    {r : Run Value} (h : Answers rules c scope e r) : AnswersWithin rules c scope e r := by
  obtain ⟨activation, h⟩ := h
  refine ⟨activation, fun activation' answer d => ⟨fun h' => h.unique h', ?_⟩, h.height_le,
    h.answer_of_refuses⟩
  rintro ⟨rfl, rfl, rfl⟩
  exact h

theorem Ends.within {rules : Rulebook} {c : Context} {α : Type} {script : Script α} {r : Run α}
    (h : Ends rules c script r) : EndsWithin rules c script r := by
  obtain ⟨activations, h⟩ := h
  refine ⟨activations, fun activations' outcome d => ⟨fun h' => h.unique h', ?_⟩, h.heights_le,
    h.outcome_of_refusesAny⟩
  rintro ⟨rfl, rfl, rfl⟩
  exact h

namespace Session

/-- A session with all levels of the limit left. -/
def context (p : Program) (s : Session) : Context := ⟨s, ⟨0, p.limits.evaluation⟩⟩

theorem ends_script (p : Program) (s : Session) {α : Type} (script : Script α) :
    Ends p.rules (s.context p) script (script.run p.evaluate) :=
  ends_run p.rules script (s.context p)

end Session

/-- Every evaluation ends within the limit, whatever the rules are, and so does every construct that
evaluates anything. -/
theorem evaluation_ends_within_limit :
    (∀ (rules : Rulebook) (c : Context) (scope : Scope) (e : Expr Mark),
      AnswersWithin rules c scope e
        (Expr.evaluateAt rules c.depth.limit c.depth.remaining scope e)) ∧
    (∀ (p : Program) (s : Session) (f : Frame) (e : Element),
      EndsWithin p.rules (s.context p) (Script.query p f e) (Construct.query p f e) ∧
      (∀ universal, EndsWithin p.rules (s.context p) (Script.quantifier p f universal e)
        (Construct.quantifier p f universal e)) ∧
      EndsWithin p.rules (s.context p) (Script.assertion p f e) (Construct.assertion p f e)) ∧
    (∀ (p : Program) (s : Session) (r : Rule),
      EndsWithin p.rules (s.context p) (Script.constraint r) (Construct.constraint p r)) := by
  refine ⟨fun rules c scope e => (answers_evaluateAt rules c rfl rfl scope e).within,
    fun p s f e => ⟨?_, fun universal => ?_, ?_⟩, fun p s r => ?_⟩
  · rw [← Script.run_query]
    exact (s.ends_script p _).within
  · rw [← Script.run_quantifier]
    exact (s.ends_script p _).within
  · rw [← Script.run_assertion]
    exact (s.ends_script p _).within
  · rw [← Script.run_constraint]
    exact (s.ends_script p _).within

/-- A rule that evaluates itself without end is cut off. -/
example :
    let forever : Rule := {
      name := "forever", kind := .rule
      body := .call ⟨1, some 7⟩ "eval" [.literal ⟨0, some 7⟩ (.text "forever")]
      parameters := [], line := some 7, scope := .ofTable ∅ }
    (Expr.evaluate ⟨[forever], List.pairwise_singleton _ _⟩ 4 (.ofTable ∅) forever.body).outcome =
      .error (depthFault 4 (some 7)) := by
  rfl

end Premise
