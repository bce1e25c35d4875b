import Premise.Proofs.Program

/-!
Where results come from.

A result goes by labels: one for each branch that its construct stands in and one for the construct
itself. A label is a name from the document, or it is a number, the next one among the constructs
with that tag which have no name. `records` walks a document as `visit` does and keeps the labels
where a session only keeps the name that they spell, and `visit_records` says that these are the
results that the session records.

No number is given out twice (`records_numbered`): two results have one in common only if they come
from the same branch, and then it is not the label of either construct.
-/

namespace Premise

/-- What a construct goes by. -/
inductive Label where
  | written (name : String)
  /-- the n-th construct with the tag that has no name -/
  | generated (tag : String) (n : Nat)
  deriving DecidableEq

namespace Label

def text : Label → String
  | .written name => name
  | .generated tag n => s!"{tag}{n}"

def isGenerated : Label → Bool
  | .written _ => false
  | .generated _ _ => true

end Label

/-- A result with the label of its construct and those around it, the outermost first: first the
namespace of the document, if it has one, and then the branches. -/
structure Record where
  around : List Label := []
  own : Label
  value : Value

namespace Record

def labels (r : Record) : List Label := r.around ++ [r.own]

/-- The name that the labels spell. -/
def name (r : Record) : String :=
  r.around.foldr (fun l inner => l.text ++ "." ++ inner) r.own.text

def entry (r : Record) : String × Value := (r.name, r.value)

def inside (l : Label) (r : Record) : Record := { r with around := l :: r.around }

def under (space : Option String) (r : Record) : Record :=
  match space with
  | some ns => if ns.isEmpty then r else r.inside (.written ns)
  | none => r

theorem own_mem_labels (r : Record) : r.own ∈ r.labels := List.mem_append_right _ (.head _)

theorem entry_under (space : Option String) (r : Record) :
    (r.under space).entry = (Name.qualify space r.name, r.value) := by
  cases space with
  | none => rfl
  | some ns =>
    show (if ns.isEmpty then r else r.inside (.written ns)).entry =
      (if ns.isEmpty then r.name else ns ++ "." ++ r.name, r.value)
    split <;> rfl

/-- Only constructs that take names have numbers, and no construct the number of a branch around
it. -/
structure Regular (r : Record) : Prop where
  role : ∀ tag n, .generated tag n ∈ r.labels → (Role.ofTag tag).takesName = true
  own : r.own.isGenerated = true → r.own ∉ r.around

/-- A number in the labels of both is that of a branch that both come from. -/
def Apart (r r' : Record) : Prop :=
  ∀ l : Label, l.isGenerated = true → l ∈ r.labels → l ∈ r'.labels →
    ∃ before after after', r.around = before ++ l :: after ∧ r'.around = before ++ l :: after'

instance : Std.Symm Apart where
  symm r r' h l hl hmem hmem' := by
    obtain ⟨before, after, after', hr, hr'⟩ := h l hl hmem' hmem
    exact ⟨before, after', after, hr', hr⟩

theorem Apart.inside {r r' : Record} (h : r.Apart r') (l : Label) :
    (r.inside l).Apart (r'.inside l) := by
  intro m hm hmem hmem'
  by_cases heq : m = l
  · subst heq
    exact ⟨[], r.around, r'.around, rfl, rfl⟩
  · obtain ⟨before, after, after', hr, hr'⟩ := h m hm ((List.mem_cons.mp hmem).resolve_left heq)
      ((List.mem_cons.mp hmem').resolve_left heq)
    exact ⟨l :: before, after, after', congrArg (l :: ·) hr, congrArg (l :: ·) hr'⟩

end Record

/-- How many constructs of each tag have been numbered. -/
abbrev Counts := Table Nat

namespace Counts

def of (c : Counts) (tag : String) : Nat := (c.get? tag).getD 0

/-- The label of an element, and the counts behind it. -/
def label (c : Counts) (e : Element) : Label × Counts :=
  match e.name? with
  | some name => (.written name, c)
  | none => (.generated e.tag (c.of e.tag + 1), c.insert e.tag (c.of e.tag + 1))

end Counts

/-- The record of a run that yields a value. -/
def Run.records (r : Run Value) (own : Label) : List Record :=
  match r.outcome with
  | .ok v => [{ own, value := v }]
  | .error _ => []

namespace Session

def domainRecords (p : Program) (e : Element) : List Record :=
  match p.domains.get? e.tag with
  | none => []
  | some handler =>
    match (handler e p.symbols).result with
    | some v => [{ own := .written (domainName e), value := v }]
    | none => []

mutual

/-- What comes of an element, by labels inside the frame, and the counts behind it. -/
def records (p : Program) (f : Frame) (c : Counts) : Element → List Record × Counts
  | ⟨tag, attributes, children, text, line⟩ =>
    let e : Element := ⟨tag, attributes, children, text, line⟩
    match Role.ofTag tag with
    | .declarations | .assertion => ([], c)
    | .evaluated | .simulated => recordsAll p f c children
    | .query => ((Construct.query p f e).records (c.label e).1, (c.label e).2)
    | .quantifier universal =>
      ((Construct.quantifier p f universal e).records (c.label e).1, (c.label e).2)
    | .aggregate => ((Construct.aggregate f e).records (c.label e).1, (c.label e).2)
    | .branch =>
      let inner := f.branch (c.label e).1.text (Construct.overrides p f e).1
      let (rs, c') := recordsAll p inner (c.label e).2 children
      (rs.map (Record.inside (c.label e).1), c')
    | .domain => (domainRecords p e, c)

def recordsAll (p : Program) (f : Frame) (c : Counts) : List Element → List Record × Counts
  | [] => ([], c)
  | e :: es =>
    let (rs, c) := records p f c e
    let (more, c) := recordsAll p f c es
    (rs ++ more, c)

end

/-! ### They are what is recorded -/

/-- From `s` to `t` these records were made from the frame, and the counts are those. -/
structure Makes (f : Frame) (s t : Session) (made : List Record × Counts) : Prop where
  writes : t.writes = s.writes ++ made.1.map fun r => f.place r.entry
  generated : t.generated = made.2

namespace Makes

variable {f : Frame} {s t u : Session} {made more : List Record × Counts}

theorem ofGains {faults : List Fault} {writes : List (String × Value)} {rs : List Record}
    {c : Counts} (h : Gains f s t faults writes) (hwrites : rs.map Record.entry = writes)
    (hgenerated : t.generated = c) : Makes f s t (rs, c) := by
  refine ⟨?_, hgenerated⟩
  rw [h.writes, ← hwrites, List.map_map]
  rfl

theorem refl (f : Frame) (s : Session) : Makes f s s ([], s.generated) :=
  .ofGains (.refl f s) rfl rfl

theorem trans (h : Makes f s t made) (k : Makes f t u more) :
    Makes f s u (made.1 ++ more.1, more.2) := by
  refine ⟨?_, k.generated⟩
  rw [k.writes, h.writes, List.map_append, List.append_assoc]

/-- Behind a step that records nothing. -/
theorem behind {faults : List Fault} (h : Gains f s t faults []) (k : Makes f t u made) :
    Makes f s u made := by
  refine ⟨?_, k.generated⟩
  rw [k.writes, h.writes, List.map_nil, List.append_nil]

theorem traced {header : String} {act : Session → Session}
    (h : Makes f { s with trace := s.trace.start header }
      (act { s with trace := s.trace.start header }) made) :
    Makes f s (s.traced header act) made := ⟨h.writes, h.generated⟩

theorem ofBranch {l : Label} (hl : l.text ≠ "") {overrides : List (String × Value)}
    (h : Makes (f.branch l.text overrides) s t made) :
    Makes f s t (made.1.map (Record.inside l), made.2) := by
  refine ⟨?_, h.generated⟩
  have hplace : ∀ r ∈ made.1, (f.branch l.text overrides).place r.entry =
      f.place (r.inside l).entry := fun r _ =>
    congrArg (·, r.value) (f.resultName_branch hl overrides r.name)
  rw [h.writes, List.map_map, List.map_congr_left hplace]
  rfl

end Makes

theorem nameOf_eq (s : Session) (e : Element) : s.nameOf e =
    ((Counts.label s.generated e).1.text,
      { s with generated := (Counts.label s.generated e).2 }) := by
  unfold nameOf Counts.label
  cases e.name? <;> rfl

theorem map_entry_records (r : Run Value) (own : Label) :
    (r.records own).map Record.entry = r.recorded own.text := by
  unfold Run.records Run.recorded
  cases r.outcome <;> rfl

variable (p : Program)

theorem query_makes (f : Frame) (s : Session) (e : Element) : Makes f s (s.query p f e)
    ((Construct.query p f e).records (Counts.label s.generated e).1,
      (Counts.label s.generated e).2) := by
  refine .ofGains (.query p f s e) ?_ ?_
  · rw [map_entry_records, nameOf_eq]
  · rw [generated_query, nameOf_eq]

theorem conclude_makes (f : Frame) (s : Session) (e : Element) (line : Option Nat)
    (r : Run Value) : Makes f s ((s.nameOf e).2.conclude f (s.nameOf e).1 line r)
    (r.records (Counts.label s.generated e).1, (Counts.label s.generated e).2) := by
  refine .ofGains ((Gains.nameOf f s e).trans (.conclude f _ _ line r)) ?_ ?_
  · rw [map_entry_records, nameOf_eq]
    rfl
  · rw [generated_conclude, nameOf_eq]

theorem domain_makes (f : Frame) (s : Session) (e : Element) :
    Makes f s (s.domain p f e) (domainRecords p e, s.generated) := by
  unfold Session.domain domainRecords
  cases p.domains.get? e.tag with
  | none => exact .ofGains (.report f s _) rfl rfl
  | some handler =>
    simp only
    cases (handler e p.symbols).result with
    | none =>
      cases (handler e p.symbols).error with
      | none => exact .refl f s
      | some message => exact .ofGains (.report f s _) rfl rfl
    | some v =>
      have hvalue := (Gains.follow f s [.binding (domainName e) v]).trans
        (.record f _ (domainName e) v)
      cases (handler e p.symbols).error with
      | none => exact .ofGains hvalue rfl (by simp)
      | some message => exact .ofGains (hvalue.trans (.report f _ _)) rfl (by simp)

theorem enterBranch_makes (f : Frame) (s : Session) (e : Element)
    {made : List Record × Counts} {t : Session}
    (h : Makes (s.enterBranch p f e).1 (s.enterBranch p f e).2 t made) :
    Makes f s t (made.1.map (Record.inside (Counts.label s.generated e).1), made.2) := by
  have hname : (s.nameOf e).1 = (Counts.label s.generated e).1.text := by rw [nameOf_eq]
  rw [enterBranch_fst, hname] at h
  exact .behind (.enterBranch p f f s e) (h.ofBranch (hname ▸ nameOf_ne_empty s e))

mutual

/-- What a session records of an element is what its labels spell. -/
theorem visit_records (f : Frame) (s : Session) (e : Element) :
    Makes f s (visit p f s e) (records p f s.generated e) := by
  cases e with
  | mk tag attributes children text line =>
    unfold visit records
    cases hrole : Role.ofTag tag with
    | declarations => exact .refl f s
    | evaluated => exact visitAll_records f s children
    | simulated => exact simulateAll_records f s children
    | query => exact query_makes p f s _
    | quantifier universal => exact conclude_makes f s _ line _
    | aggregate => exact conclude_makes f s _ line _
    | assertion => exact .ofGains (.absorb f s line _) rfl (generated_absorb s line _)
    | branch =>
      let e : Element := ⟨tag, attributes, children, text, line⟩
      have hcounts : (s.enterBranch p f e).2.generated = (Counts.label s.generated e).2 := by
        rw [generated_enterBranch, nameOf_eq]
      have hframe : (s.enterBranch p f e).1 =
          f.branch (Counts.label s.generated e).1.text (Construct.overrides p f e).1 := by
        rw [enterBranch_fst, nameOf_eq]
      have hinner : Makes (s.enterBranch p f e).1 (s.enterBranch p f e).2
          (visitAll p (s.enterBranch p f e).1 (s.enterBranch p f e).2 children)
          (recordsAll p (f.branch (Counts.label s.generated e).1.text (Construct.overrides p f e).1)
            (Counts.label s.generated e).2 children) := by
        rw [← hframe, ← hcounts]
        exact visitAll_records _ _ children
      exact enterBranch_makes p f s e hinner
    | domain => exact domain_makes p f s _

theorem visitAll_records (f : Frame) (s : Session) (es : List Element) :
    Makes f s (visitAll p f s es) (recordsAll p f s.generated es) := by
  cases es with
  | nil => exact .refl f s
  | cons e es =>
    have hhead := visit_records f s e
    have htail := visitAll_records f (visit p f s e) es
    rw [hhead.generated] at htail
    rw [visitAll, recordsAll]
    exact hhead.trans htail

theorem simulateAll_records (f : Frame) (s : Session) (es : List Element) :
    Makes f s (simulateAll p f s es) (recordsAll p f s.generated es) := by
  cases es with
  | nil => exact .refl f s
  | cons e es =>
    have hhead : Makes f s (s.traced (simulationHeader e) fun s => visit p f s e)
        (records p f s.generated e) := .traced (visit_records f _ e)
    have htail := simulateAll_records f (s.traced (simulationHeader e) fun s => visit p f s e) es
    rw [hhead.generated] at htail
    rw [simulateAll, recordsAll]
    exact hhead.trans htail

end

/-! ### No number is given out twice -/

/-- The numbers in the records were given out behind the counts, and each to one construct. -/
structure Numbered (c : Counts) (made : List Record × Counts) : Prop where
  grows : ∀ tag, c.of tag ≤ made.2.of tag
  within : ∀ r ∈ made.1, ∀ tag n, .generated tag n ∈ r.labels →
    (Role.ofTag tag).takesName = true ∧ c.of tag < n ∧ n ≤ made.2.of tag
  own : ∀ r ∈ made.1, r.own.isGenerated = true → r.own ∉ r.around
  apart : made.1.Pairwise Record.Apart

theorem Numbered.regular {c : Counts} {made : List Record × Counts} (h : Numbered c made)
    {r : Record} (hr : r ∈ made.1) : r.Regular :=
  ⟨fun tag n hlabel => (h.within r hr tag n hlabel).1, h.own r hr⟩

namespace Numbered

variable {c : Counts} {made more : List Record × Counts}

theorem nil (c : Counts) : Numbered c ([], c) := ⟨fun _ => Nat.le_refl _, nofun, nofun, .nil⟩

theorem trans (h : Numbered c made) (k : Numbered made.2 more) :
    Numbered c (made.1 ++ more.1, more.2) where
  grows tag := Nat.le_trans (h.grows tag) (k.grows tag)
  within r hr tag n hlabel := by
    rcases List.mem_append.mp hr with hr | hr
    · obtain ⟨hrole, hlow, hhigh⟩ := h.within r hr tag n hlabel
      exact ⟨hrole, hlow, Nat.le_trans hhigh (k.grows tag)⟩
    · obtain ⟨hrole, hlow, hhigh⟩ := k.within r hr tag n hlabel
      exact ⟨hrole, Nat.lt_of_le_of_lt (h.grows tag) hlow, hhigh⟩
  own r hr := (List.mem_append.mp hr).elim (h.own r) (k.own r)
  apart := by
    refine List.pairwise_append.mpr ⟨h.apart, k.apart, fun r hr r' hr' l hl hmem hmem' => ?_⟩
    cases l with
    | written name => cases hl
    | generated tag n =>
      obtain ⟨-, -, hhigh⟩ := h.within r hr tag n hmem
      obtain ⟨-, hlow, -⟩ := k.within r' hr' tag n hmem'
      omega

theorem label_cases (c : Counts) (e : Element) :
    (∃ name, c.label e = (.written name, c)) ∨
      ((c.label e).1 = .generated e.tag (c.of e.tag + 1) ∧
        (c.label e).2.of e.tag = c.of e.tag + 1 ∧
        ∀ tag, tag ≠ e.tag → (c.label e).2.of tag = c.of tag) := by
  unfold Counts.label
  cases e.name? with
  | some name => exact .inl ⟨name, rfl⟩
  | none =>
    refine .inr ⟨rfl, ?_, fun tag htag => ?_⟩
    · simp [Counts.of]
    · simp [Counts.of, Table.get?_insert_of_ne _ _ htag]

theorem label_grows (c : Counts) (e : Element) (tag : String) :
    c.of tag ≤ (c.label e).2.of tag := by
  rcases label_cases c e with ⟨name, h⟩ | ⟨-, hself, hothers⟩
  · rw [h]
  · by_cases htag : tag = e.tag
    · rw [htag, hself]
      omega
    · rw [hothers tag htag]

theorem label_within {e : Element} {tag : String} {n : Nat}
    (h : (c.label e).1 = .generated tag n) :
    tag = e.tag ∧ c.of tag < n ∧ n = (c.label e).2.of tag := by
  rcases label_cases c e with ⟨name, hwritten⟩ | ⟨hgenerated, hself, -⟩
  · rw [hwritten] at h
    cases h
  · rw [hgenerated] at h
    cases h
    exact ⟨rfl, Nat.lt_succ_self _, hself.symm⟩

theorem named {e : Element} (he : (Role.ofTag e.tag).takesName = true) (r : Run Value) :
    Numbered c (r.records (c.label e).1, (c.label e).2) := by
  unfold Run.records
  cases r.outcome with
  | error fault => exact ⟨label_grows c e, nofun, nofun, .nil⟩
  | ok v =>
    refine ⟨label_grows c e, fun r hr tag n hlabel => ?_, fun r hr _ => ?_,
      List.pairwise_singleton _ _⟩
    · cases List.mem_singleton.mp hr
      obtain ⟨htag, hlow, hhigh⟩ := label_within (List.mem_singleton.mp hlabel).symm
      exact ⟨htag ▸ he, hlow, Nat.le_of_eq hhigh⟩
    · cases List.mem_singleton.mp hr
      exact List.not_mem_nil

/-- What is numbered inside a branch is numbered behind the branch. -/
theorem branch {e : Element} (he : (Role.ofTag e.tag).takesName = true)
    (h : Numbered (c.label e).2 made) :
    Numbered c (made.1.map (Record.inside (c.label e).1), made.2) where
  grows tag := Nat.le_trans (label_grows c e tag) (h.grows tag)
  within r hr tag n hlabel := by
    obtain ⟨inner, hinner, rfl⟩ := List.mem_map.mp hr
    rcases List.mem_cons.mp hlabel with hown | hlabel
    · obtain ⟨htag, hlow, hhigh⟩ := label_within hown.symm
      exact ⟨htag ▸ he, hlow, hhigh ▸ h.grows tag⟩
    · obtain ⟨hrole, hlow, hhigh⟩ := h.within inner hinner tag n hlabel
      exact ⟨hrole, Nat.lt_of_le_of_lt (label_grows c e tag) hlow, hhigh⟩
  own r hr hown hmem := by
    obtain ⟨inner, hinner, rfl⟩ := List.mem_map.mp hr
    rcases List.mem_cons.mp hmem with heq | hmem
    · have hgenerated : inner.own.isGenerated = true := hown
      cases hlabel : inner.own with
      | written name =>
        rw [hlabel] at hgenerated
        cases hgenerated
      | generated tag n =>
        obtain ⟨-, hlow, -⟩ := h.within inner hinner tag n (hlabel ▸ inner.own_mem_labels)
        obtain ⟨-, -, hhigh⟩ := label_within (heq.symm.trans hlabel)
        omega
    · exact h.own inner hinner hown hmem
  apart := List.pairwise_map.mpr (h.apart.imp fun hapart => hapart.inside _)

/-- A name around the records is no number. -/
theorem written (h : Numbered c made) (name : String) :
    Numbered c (made.1.map (Record.inside (.written name)), made.2) where
  grows := h.grows
  within r hr tag n hlabel := by
    obtain ⟨inner, hinner, rfl⟩ := List.mem_map.mp hr
    exact h.within inner hinner tag n ((List.mem_cons.mp hlabel).resolve_left nofun)
  own r hr hown hmem := by
    obtain ⟨inner, hinner, rfl⟩ := List.mem_map.mp hr
    rcases List.mem_cons.mp hmem with heq | hmem
    · rw [heq] at hown
      cases hown
    · exact h.own inner hinner hown hmem
  apart := List.pairwise_map.mpr (h.apart.imp fun hapart => hapart.inside _)

theorem under (h : Numbered c made) (space : Option String) :
    Numbered c (made.1.map (Record.under space), made.2) := by
  have hsame : Numbered c (made.1.map id, made.2) := by rwa [List.map_id]
  cases space with
  | none => exact hsame
  | some ns =>
    by_cases hns : ns.isEmpty = true
    · have hid : Record.under (some ns) = id := funext fun r => if_pos hns
      rwa [hid]
    · have hinside : Record.under (some ns) = Record.inside (.written ns) :=
        funext fun r => if_neg hns
      rw [hinside]
      exact h.written ns

theorem domain (p : Program) (c : Counts) (e : Element) : Numbered c (domainRecords p e, c) := by
  unfold domainRecords
  cases p.domains.get? e.tag with
  | none => exact .nil c
  | some handler =>
    simp only
    cases (handler e p.symbols).result with
    | none => exact .nil c
    | some v =>
      refine ⟨fun _ => Nat.le_refl _, fun r hr tag n hlabel => ?_, fun r hr hown => ?_,
        List.pairwise_singleton _ _⟩
      · cases List.mem_singleton.mp hr
        cases List.mem_singleton.mp hlabel
      · cases List.mem_singleton.mp hr
        cases hown

end Numbered

mutual

theorem records_numbered (p : Program) (f : Frame) (c : Counts) (e : Element) :
    Numbered c (records p f c e) := by
  cases e with
  | mk tag attributes children text line =>
    unfold records
    cases hrole : Role.ofTag tag with
    | declarations | assertion => exact .nil c
    | evaluated | simulated => exact recordsAll_numbered p f c children
    | query | quantifier universal | aggregate => exact .named (by rw [hrole]; rfl) _
    | branch => exact .branch (by rw [hrole]; rfl) (recordsAll_numbered p _ _ children)
    | domain => exact .domain p c _

theorem recordsAll_numbered (p : Program) (f : Frame) (c : Counts) (es : List Element) :
    Numbered c (recordsAll p f c es) := by
  cases es with
  | nil => exact .nil c
  | cons e es => exact (records_numbered p f c e).trans (recordsAll_numbered p f _ es)

end

/-! ### Documents one after another -/

theorem Gains.checkConstraints (f : Frame) (s : Session) (names : List String) :
    ∃ faults, Gains f s (s.checkConstraints p names) faults [] ∧
      (s.checkConstraints p names).generated = s.generated := by
  unfold Session.checkConstraints
  generalize names.filterMap p.rules.get? = rules
  induction rules generalizing s with
  | nil => exact ⟨[], .refl f s, rfl⟩
  | cons r rules ih =>
    obtain ⟨faults, hgains, hgenerated⟩ := ih (s.absorb r.line (Construct.constraint p r))
    refine ⟨_, (Gains.absorb f s r.line (Construct.constraint p r)).trans hgains, ?_⟩
    rw [List.foldl_cons, hgenerated, generated_absorb]

/-- What comes of documents that are evaluated one after another. -/
def recordsOf (p : Program) (scope : Scope) (c : Counts) : List FullImport → List Record × Counts
  | [] => ([], c)
  | i :: rest =>
    let (rs, c) := recordsAll p (.ofDocument scope i.space) c i.root.children
    let (more, c) := recordsOf p scope c rest
    (rs.map (Record.under i.space) ++ more, c)

theorem recordsOf_numbered (p : Program) (scope : Scope) (c : Counts) (is : List FullImport) :
    Numbered c (recordsOf p scope c is) := by
  induction is generalizing c with
  | nil => exact .nil c
  | cons i is ih =>
    have hown := recordsAll_numbered p (.ofDocument scope i.space) c i.root.children
    exact (hown.under i.space).trans (ih _)

theorem evaluateDocument_records (scope : Scope) (s : Session) (i : FullImport) :
    let made := recordsAll p (.ofDocument scope i.space) s.generated i.root.children
    let t := s.evaluateDocument p scope i.space i.constraints i.root
    t.writes = s.writes ++ (made.1.map (Record.under i.space)).map Record.entry ∧
      t.generated = made.2 := by
  intro made t
  let f : Frame := .ofDocument scope i.space
  obtain ⟨faults, hchecks, hgenerated⟩ := Gains.checkConstraints p f s i.constraints
  have hmade := visitAll_records p f (s.checkConstraints p i.constraints) i.root.children
  rw [hgenerated] at hmade
  have hboth : Makes f s t made := .behind hchecks hmade
  have hplace : ∀ r ∈ made.1, f.place r.entry = (r.under i.space).entry := fun r _ =>
    (r.entry_under i.space).symm
  refine ⟨?_, hboth.generated⟩
  rw [hboth.writes, List.map_congr_left hplace, List.map_map]
  rfl

theorem foldl_records (scope : Scope) (is : List FullImport) (s : Session) :
    (is.foldl (fun s i => s.evaluateDocument p scope i.space i.constraints i.root) s).writes =
      s.writes ++ (recordsOf p scope s.generated is).1.map Record.entry := by
  induction is generalizing s with
  | nil => exact (List.append_nil _).symm
  | cons i is ih =>
    obtain ⟨hwrites, hgenerated⟩ := evaluateDocument_records p scope s i
    rw [List.foldl_cons, ih, hwrites, hgenerated, recordsOf, List.map_append, List.append_assoc]

end Session

namespace Engine

/-- The documents that are evaluated, in their order: those imported in full, and then the document
itself. -/
def documents (linked : Linked) (root : Element) : List FullImport :=
  linked.fullImports ++ [⟨root, none, linked.constraints⟩]

/-- What comes of a linked document. -/
def records (engine : Engine) (linked : Linked) (root : Element) : List Record :=
  (Session.recordsOf (engine.program linked) linked.symbols.scope ∅ (documents linked root)).1

theorem run_writes (engine : Engine) (linked : Linked) (root : Element) :
    (engine.run linked root).writes = (engine.records linked root).map Record.entry := by
  have hrun : engine.run linked root = (documents linked root).foldl
      (fun s i => s.evaluateDocument (engine.program linked) linked.symbols.scope i.space
        i.constraints i.root) { faults := linked.faults } := by
    rw [run_eq, documents, List.foldl_append]
    rfl
  rw [hrun, Session.foldl_records]
  rfl

theorem records_regular {engine : Engine} {linked : Linked} {root : Element} {r : Record}
    (hr : r ∈ engine.records linked root) : r.Regular :=
  (Session.recordsOf_numbered _ _ _ _).regular hr

theorem records_apart (engine : Engine) (linked : Linked) (root : Element) :
    (engine.records linked root).Pairwise Record.Apart :=
  (Session.recordsOf_numbered _ _ _ _).apart

end Engine

end Premise
