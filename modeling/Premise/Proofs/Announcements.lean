import Premise.Proofs.Lines
import Premise.Proofs.Provenance

/-!
What the headers of a trace announce.

`account` walks a document as `visit` does, but keeps the lines of a traced construct under the
header that announces it, together with the traced constructs inside. Headers are appended where a
construct starts and buffers where it ends, so that a trace lists the headers of this forest in
preorder and its buffers in postorder (`run_tells`). Both are the same as long as no traced
construct stands in another; a simulated section in another one is enough to tell them apart.
-/

namespace Premise

/-- A traced construct: its header, the lines of its own and the traced constructs inside it. -/
inductive Announced where
  | mk (header : String) (lines : List String) (inner : List Announced)

namespace Announced

mutual

/-- The headers with their lines, each before those inside. -/
def preorder : Announced → List (String × List String)
  | ⟨header, lines, inner⟩ => (header, lines) :: preorderAll inner

def preorderAll : List Announced → List (String × List String)
  | [] => []
  | a :: as => preorder a ++ preorderAll as

end

mutual

/-- The headers with their lines, each behind those inside. -/
def postorder : Announced → List (String × List String)
  | ⟨header, lines, inner⟩ => postorderAll inner ++ [(header, lines)]

def postorderAll : List Announced → List (String × List String)
  | [] => []
  | a :: as => postorder a ++ postorderAll as

end

theorem preorderAll_append (as bs : List Announced) :
    preorderAll (as ++ bs) = preorderAll as ++ preorderAll bs := by
  induction as with
  | nil => rfl
  | cons a as ih =>
    rw [List.cons_append, preorderAll, preorderAll, ih, List.append_assoc]

theorem postorderAll_append (as bs : List Announced) :
    postorderAll (as ++ bs) = postorderAll as ++ postorderAll bs := by
  induction as with
  | nil => rfl
  | cons a as ih =>
    rw [List.cons_append, postorderAll, postorderAll, ih, List.append_assoc]

mutual

/-- Every header has its lines in both orders. -/
theorem postorder_perm (a : Announced) : (postorder a).Perm (preorder a) := by
  cases a with
  | mk header lines inner =>
    rw [postorder, preorder]
    exact (List.perm_append_singleton _ _).trans ((postorderAll_perm inner).cons _)

theorem postorderAll_perm (as : List Announced) :
    (postorderAll as).Perm (preorderAll as) := by
  cases as with
  | nil => exact .nil
  | cons a as =>
    rw [postorderAll, preorderAll]
    exact (postorder_perm a).append (postorderAll_perm as)

end

def isFlat : Announced → Bool
  | ⟨_, _, inner⟩ => inner.isEmpty

/-- Where nothing stands in anything else, there is one order only. -/
theorem postorderAll_eq_of_isFlat {as : List Announced} (h : ∀ a ∈ as, a.isFlat = true) :
    postorderAll as = preorderAll as := by
  induction as with
  | nil => rfl
  | cons a as ih =>
    rw [postorderAll, preorderAll, ih fun b hb => h b (List.mem_cons_of_mem a hb)]
    congr 1
    have hflat := h a List.mem_cons_self
    cases a with
    | mk header lines inner =>
      cases inner with
      | nil => rfl
      | cons b bs => cases hflat

end Announced

/-- What an element comes to in a trace: lines for the buffer around it, the traced constructs in
it, and the counts behind it. -/
structure Account where
  lines : List String := []
  announced : List Announced := []
  counts : Counts

namespace Account

/-- One account behind another. -/
def append (a b : Account) : Account := ⟨a.lines ++ b.lines, a.announced ++ b.announced, b.counts⟩

end Account

namespace Session

/-- The account of a query; with `trace="full"` it is traced, unless it is already. -/
def queryAccount (p : Program) (f : Frame) (traced : Bool) (c : Counts) (e : Element) : Account :=
  let name := (c.label e).1.text
  let lines := (Construct.query p f e).told name
  if e.attribute? "trace" = some "full" ∧ !traced then
    { announced := [⟨s!"trace query '{name}'", lines, []⟩], counts := (c.label e).2 }
  else { lines, counts := (c.label e).2 }

mutual

/-- The account of an element; `traced` says whether a buffer is active around it. -/
def account (p : Program) (f : Frame) (traced : Bool) (c : Counts) : Element → Account
  | ⟨tag, attributes, children, text, line⟩ =>
    let e : Element := ⟨tag, attributes, children, text, line⟩
    let name := (c.label e).1.text
    match Role.ofTag tag with
    | .declarations => { counts := c }
    | .evaluated => accountAll p f traced c children
    | .simulated => simulations p f c children
    | .query => queryAccount p f traced c e
    | .quantifier universal =>
      { lines := (Construct.quantifier p f universal e).told name, counts := (c.label e).2 }
    | .aggregate => { lines := (Construct.aggregate f e).told name, counts := (c.label e).2 }
    | .assertion => { lines := (Construct.assertion p f e).steps.map Step.line, counts := c }
    | .branch =>
      let overrides := (Construct.overrides p f e).1
      let inner := accountAll p (f.branch name overrides) traced (c.label e).2 children
      { inner with lines := (Step.branch tag overrides).line :: inner.lines }
    | .domain => { lines := domainLines p e, counts := c }

def accountAll (p : Program) (f : Frame) (traced : Bool) (c : Counts) : List Element → Account
  | [] => { counts := c }
  | e :: es =>
    let a := account p f traced c e
    a.append (accountAll p f traced a.counts es)

/-- Each under a header of its own. -/
def simulations (p : Program) (f : Frame) (c : Counts) : List Element → Account
  | [] => { counts := c }
  | e :: es =>
    let a := account p f true c e
    let own : Account :=
      { announced := [⟨simulationHeader e, a.lines, a.announced⟩], counts := a.counts }
    own.append (simulations p f a.counts es)

end

/-! ### Accounts are what a session traces -/

/-- From `s` to `t` the trace took in the account. -/
structure Tells (s t : Session) (a : Account) : Prop where
  headers : t.trace.headers = s.trace.headers ++ (Announced.preorderAll a.announced).map Prod.fst
  finished : t.trace.finished =
    s.trace.finished ++ (Announced.postorderAll a.announced).map Prod.snd
  active : t.trace.active = s.trace.active.map (· ++ a.lines)
  generated : t.generated = a.counts

namespace Tells

variable {s t u : Session} {a b : Account}

theorem ofAppends {lines : List String} {c : Counts} (h : Appends s t lines)
    (hgenerated : t.generated = c) : Tells s t { lines, counts := c } :=
  ⟨h.headers.trans (List.append_nil _).symm, h.finished.trans (List.append_nil _).symm, h.active,
    hgenerated⟩

theorem refl (s : Session) : Tells s s { counts := s.generated } :=
  .ofAppends (.of_trace_eq rfl) rfl

theorem trans (h : Tells s t a) (k : Tells t u b) : Tells s u (a.append b) := by
  refine ⟨?_, ?_, ?_, k.generated⟩
  · rw [k.headers, h.headers, Account.append, Announced.preorderAll_append, List.map_append,
      List.append_assoc]
  · rw [k.finished, h.finished, Account.append, Announced.postorderAll_append, List.map_append,
      List.append_assoc]
  · rw [k.active, h.active]
    cases s.trace.active with
    | none => rfl
    | some buffer => exact congrArg some (List.append_assoc ..)

theorem conclude (s : Session) (f : Frame) (name : String) (line : Option Nat) (r : Run Value) :
    Tells s (s.conclude f name line r) { lines := r.told name, counts := s.generated } :=
  .ofAppends (.conclude s f name line r) (generated_conclude s f name line r)

/-- A buffer is active behind it if one was before. -/
theorem isActive (h : Tells s t a) : t.trace.isActive = s.trace.isActive := by
  unfold Trace.isActive
  rw [h.active, Option.isSome_map]

/-- Behind a step that only appends lines. -/
theorem behind {lines : List String} (k : Tells t u a) (h : Appends s t lines) :
    Tells s u { a with lines := lines ++ a.lines } :=
  (ofAppends h rfl).trans k

/-- The header comes in front of those inside, and the buffer behind them. -/
theorem finish {header : String} (h : Tells { s with trace := s.trace.start header } t a) :
    Tells s { t with trace := t.trace.finish s.trace.active }
      { announced := [⟨header, a.lines, a.announced⟩], counts := a.counts } := by
  have hactive : t.trace.active = some a.lines := h.active
  have hfinish : t.trace.finish s.trace.active =
      { t.trace with finished := t.trace.finished ++ [a.lines], active := s.trace.active } := by
    simp only [Trace.finish, hactive]
  rw [hfinish]
  refine ⟨?_, ?_, (Appends.of_trace_eq rfl).active, h.generated⟩
  · show t.trace.headers = _
    rw [h.headers]
    simp [Trace.start, Announced.preorderAll, Announced.preorder]
  · show t.trace.finished ++ _ = _
    rw [h.finished]
    simp [Trace.start, Announced.postorderAll, Announced.postorder]

end Tells

variable (p : Program)

theorem conclude_tells (f : Frame) (s : Session) (e : Element) (line : Option Nat)
    (r : Run Value) : Tells s ((s.nameOf e).2.conclude f (s.nameOf e).1 line r)
      { lines := r.told (Counts.label s.generated e).1.text,
        counts := (Counts.label s.generated e).2 } := by
  have hconcluded := Tells.conclude (s.nameOf e).2 f (s.nameOf e).1 line r
  have htold := hconcluded.behind (.nameOf s e)
  rw [nameOf_eq] at htold ⊢
  exact htold

theorem query_tells (f : Frame) (s : Session) (e : Element) :
    Tells s (s.query p f e) (queryAccount p f s.trace.isActive s.generated e) := by
  have hconcluded := fun t : Session =>
    Tells.conclude t f (s.nameOf e).1 e.line (Construct.query p f e)
  rw [query_eq]
  unfold queryAccount
  have hname : (s.nameOf e).1 = (Counts.label s.generated e).1.text := by rw [nameOf_eq]
  have hcounts : (s.nameOf e).2.generated = (Counts.label s.generated e).2 := by rw [nameOf_eq]
  have hactive : (s.nameOf e).2.trace = s.trace := by rw [nameOf_eq]
  simp only [hactive, ← hname, ← hcounts]
  split
  · exact (hconcluded _).finish.behind (.nameOf s e)
  · exact (hconcluded _).behind (.nameOf s e)

mutual

/-- What a session traces of an element is its account. -/
theorem visit_tells (f : Frame) (s : Session) (e : Element) :
    Tells s (visit p f s e) (account p f s.trace.isActive s.generated e) := by
  cases e with
  | mk tag attributes children text line =>
    let e : Element := ⟨tag, attributes, children, text, line⟩
    unfold visit account
    cases Role.ofTag tag with
    | declarations => exact .refl s
    | evaluated => exact visitAll_tells f s children
    | simulated => exact simulateAll_tells f s children
    | query => exact query_tells p f s e
    | quantifier universal => exact conclude_tells f s e line _
    | aggregate => exact conclude_tells f s e line _
    | assertion => exact .ofAppends (.absorb s line _) (generated_absorb s line _)
    | branch =>
      have hbranch := Appends.enterBranch p f s e
      have hframe : (s.enterBranch p f e).1 =
          f.branch (Counts.label s.generated e).1.text (Construct.overrides p f e).1 := by
        rw [enterBranch_fst, nameOf_eq]
      have hcounts : (s.enterBranch p f e).2.generated = (Counts.label s.generated e).2 := by
        rw [generated_enterBranch, nameOf_eq]
      have hinner : Tells (s.enterBranch p f e).2
          (visitAll p (s.enterBranch p f e).1 (s.enterBranch p f e).2 children)
          (accountAll p (f.branch (Counts.label s.generated e).1.text (Construct.overrides p f e).1)
            s.trace.isActive (Counts.label s.generated e).2 children) := by
        rw [← hframe, ← hcounts, ← hbranch.isActive]
        exact visitAll_tells _ _ children
      exact hinner.behind hbranch
    | domain => exact .ofAppends (.domain p f s e) (generated_domain p f s e)

theorem visitAll_tells (f : Frame) (s : Session) (es : List Element) :
    Tells s (visitAll p f s es) (accountAll p f s.trace.isActive s.generated es) := by
  cases es with
  | nil => exact .refl s
  | cons e es =>
    have hhead := visit_tells f s e
    have htail := visitAll_tells f (visit p f s e) es
    rw [hhead.generated, hhead.isActive] at htail
    rw [visitAll, accountAll]
    exact hhead.trans htail

theorem simulateAll_tells (f : Frame) (s : Session) (es : List Element) :
    Tells s (simulateAll p f s es) (simulations p f s.generated es) := by
  cases es with
  | nil => exact .refl s
  | cons e es =>
    have hhead : Tells s (s.traced (simulationHeader e) fun s => visit p f s e) _ :=
      (visit_tells f { s with trace := s.trace.start (simulationHeader e) } e).finish
    have htail := simulateAll_tells f (s.traced (simulationHeader e) fun s => visit p f s e) es
    rw [hhead.generated] at htail
    rw [simulateAll, simulations]
    exact hhead.trans htail

end

/-! ### Documents one after another -/

/-- The account of documents that are evaluated one after another; outside the traced constructs
nothing is traced. -/
def accountOf (p : Program) (scope : Scope) (c : Counts) : List FullImport → Account
  | [] => { counts := c }
  | i :: rest =>
    let a := accountAll p (.ofDocument scope i.space) false c i.root.children
    a.append (accountOf p scope a.counts rest)

theorem evaluateDocument_tells (scope : Scope) (s : Session) (i : FullImport)
    (hactive : s.trace.active = none) :
    Tells s (s.evaluateDocument p scope i.space i.constraints i.root)
      (accountAll p (.ofDocument scope i.space) false s.generated i.root.children) := by
  obtain ⟨lines, hlines⟩ := Appends.checkConstraints p s i.constraints
  obtain ⟨_, -, hgenerated⟩ := Gains.checkConstraints p (.ofDocument scope i.space) s i.constraints
  have htrace := hlines.trace_eq hactive
  have hvisited := visitAll_tells p (.ofDocument scope i.space)
    (s.checkConstraints p i.constraints) i.root.children
  rw [hgenerated, htrace, Trace.isActive, hactive] at hvisited
  obtain ⟨hheaders, hfinished, hlast, hcounts⟩ := hvisited
  rw [htrace] at hheaders hfinished hlast
  exact ⟨hheaders, hfinished, hlast, hcounts⟩

theorem foldl_tells (scope : Scope) (is : List FullImport) (s : Session)
    (hactive : s.trace.active = none) :
    Tells s (is.foldl (fun s i => s.evaluateDocument p scope i.space i.constraints i.root) s)
      (accountOf p scope s.generated is) := by
  induction is generalizing s with
  | nil => exact .refl s
  | cons i is ih =>
    have hhead := evaluateDocument_tells p scope s i hactive
    have hnone : (s.evaluateDocument p scope i.space i.constraints i.root).trace.active = none := by
      rw [hhead.active, hactive]
      rfl
    have htail := ih _ hnone
    rw [hhead.generated] at htail
    exact hhead.trans htail

/-! ### Sections that stand in no other -/

/-- No simulated section is among the trees. -/
def Unsimulated (es : List Element) : Prop :=
  ∀ x ∈ Element.preorderAll es, Role.ofTag x.tag ≠ .simulated

/-- No simulated section among the trees stands in another one. -/
def Unnested (es : List Element) : Prop :=
  ∀ x ∈ Element.preorderAll es, Role.ofTag x.tag = .simulated → Unsimulated x.children

instance (es : List Element) : Decidable (Unsimulated es) :=
  inferInstanceAs (Decidable (∀ x ∈ _, _))

instance (es : List Element) : Decidable (Unnested es) :=
  inferInstanceAs (Decidable (∀ x ∈ _, _))

theorem forall_preorderAll_cons {P : Element → Prop} {e : Element} {es : List Element}
    (h : ∀ x ∈ Element.preorderAll (e :: es), P x) :
    P e ∧ (∀ x ∈ Element.preorderAll e.children, P x) ∧ ∀ x ∈ Element.preorderAll es, P x := by
  rw [Element.preorderAll, Element.preorder_eq] at h
  exact ⟨h e (by simp), fun x hx => h x (by simp [hx]), fun x hx => h x (by simp [hx])⟩

mutual

/-- While a buffer is active, only simulated sections announce anything. -/
theorem announced_account (f : Frame) (c : Counts) (e : Element)
    (hrole : Role.ofTag e.tag ≠ .simulated) (h : Unsimulated e.children) :
    (account p f true c e).announced = [] := by
  cases e with
  | mk tag attributes children text line =>
    unfold account
    cases hcase : Role.ofTag tag with
    | simulated => exact absurd hcase hrole
    | evaluated | branch => exact announced_accountAll _ _ children h
    | query =>
      simp only [queryAccount, Bool.not_true, Bool.false_eq_true, and_false, if_false]
    | declarations | quantifier universal | aggregate | assertion | domain => rfl

theorem announced_accountAll (f : Frame) (c : Counts) (es : List Element) (h : Unsimulated es) :
    (accountAll p f true c es).announced = [] := by
  cases es with
  | nil => rfl
  | cons e es =>
    obtain ⟨hrole, hchildren, hes⟩ := forall_preorderAll_cons h
    simp only [accountAll, Account.append, announced_account f c e hrole hchildren,
      announced_accountAll f _ es hes, List.append_nil]

end

theorem isFlat_simulations (f : Frame) (c : Counts) (es : List Element) (h : Unsimulated es) :
    ∀ a ∈ (simulations p f c es).announced, a.isFlat = true := by
  induction es generalizing c with
  | nil => exact nofun
  | cons e es ih =>
    obtain ⟨hrole, hchildren, hes⟩ := forall_preorderAll_cons h
    have hinner := announced_account p f c e hrole hchildren
    simp only [simulations, Account.append, hinner, List.cons_append, List.nil_append,
      List.forall_mem_cons]
    exact ⟨rfl, ih _ hes⟩

theorem isFlat_queryAccount (f : Frame) (traced : Bool) (c : Counts) (e : Element) :
    ∀ a ∈ (queryAccount p f traced c e).announced, a.isFlat = true := by
  unfold queryAccount
  simp only
  split
  · exact List.forall_mem_singleton.mpr rfl
  · exact nofun

mutual

/-- Where no section stands in another one, nothing stands in what is announced. -/
theorem isFlat_account (f : Frame) (traced : Bool) (c : Counts) (e : Element)
    (hown : Role.ofTag e.tag = .simulated → Unsimulated e.children) (h : Unnested e.children) :
    ∀ a ∈ (account p f traced c e).announced, a.isFlat = true := by
  cases e with
  | mk tag attributes children text line =>
    unfold account
    cases hcase : Role.ofTag tag with
    | simulated => exact isFlat_simulations p f c children (hown hcase)
    | evaluated | branch => exact isFlat_accountAll _ traced _ children h
    | query => exact isFlat_queryAccount p f traced c _
    | declarations | quantifier universal | aggregate | assertion | domain => exact nofun

theorem isFlat_accountAll (f : Frame) (traced : Bool) (c : Counts) (es : List Element)
    (h : Unnested es) : ∀ a ∈ (accountAll p f traced c es).announced, a.isFlat = true := by
  cases es with
  | nil => exact nofun
  | cons e es =>
    obtain ⟨hown, hchildren, hes⟩ := forall_preorderAll_cons h
    exact List.forall_mem_append.mpr
      ⟨isFlat_account f traced c e hown hchildren, isFlat_accountAll f traced _ es hes⟩

end

theorem isFlat_accountOf (scope : Scope) (c : Counts) (is : List FullImport)
    (h : ∀ i ∈ is, Unnested i.root.children) :
    ∀ a ∈ (accountOf p scope c is).announced, a.isFlat = true := by
  induction is generalizing c with
  | nil => exact nofun
  | cons i is ih =>
    have hown := isFlat_accountAll p (.ofDocument scope i.space) false c _ (h i List.mem_cons_self)
    exact List.forall_mem_append.mpr ⟨hown, ih _ fun x hx => h x (List.mem_cons_of_mem i hx)⟩

end Session

namespace Engine

/-- What is traced while a linked document is evaluated. -/
def announced (engine : Engine) (linked : Linked) (root : Element) : List Announced :=
  (Session.accountOf (engine.program linked) linked.symbols.scope ∅
    (documents linked root)).announced

theorem run_tells (engine : Engine) (linked : Linked) (root : Element) :
    Session.Tells { faults := linked.faults } (engine.run linked root)
      (Session.accountOf (engine.program linked) linked.symbols.scope ∅
        (documents linked root)) := by
  have hrun := Session.foldl_tells (engine.program linked) linked.symbols.scope
    (documents linked root) { faults := linked.faults } rfl
  rw [documents, List.foldl_append] at hrun
  rw [run_eq]
  exact hrun

/-- A trace has one header and one buffer for each traced construct. The headers stand in the order
in which the constructs start, which is that of the document, and the buffers in the order in which
they end; these are the same order where no simulated section stands in another one. -/
theorem trace_announces (engine : Engine) (linked : Linked) (root : Element) :
    let t := (engine.run linked root).trace
    let traced := engine.announced linked root
    t.headers = (Announced.preorderAll traced).map Prod.fst ∧
    t.finished = (Announced.postorderAll traced).map Prod.snd ∧
    (Announced.postorderAll traced).Perm (Announced.preorderAll traced) ∧
    t.headers.length = t.finished.length ∧
    t.active = none ∧
    ((∀ i ∈ documents linked root, Session.Unnested i.root.children) →
      t.finished = (Announced.preorderAll traced).map Prod.snd) := by
  intro t traced
  have htells := engine.run_tells linked root
  have hheaders : t.headers = (Announced.preorderAll traced).map Prod.fst := htells.headers
  have hfinished : t.finished = (Announced.postorderAll traced).map Prod.snd := htells.finished
  have hperm := Announced.postorderAll_perm traced
  refine ⟨hheaders, hfinished, hperm, ?_, htells.active, fun hunnested => ?_⟩
  · rw [hheaders, hfinished, List.length_map, List.length_map]
    exact hperm.length_eq.symm
  · have hflat : ∀ a ∈ traced, a.isFlat = true := Session.isFlat_accountOf _ _ _ _ hunnested
    rw [← Announced.postorderAll_eq_of_isFlat hflat]
    exact hfinished

/-- A query that asks for a trace in front of a section with two more. -/
theorem trace_announces_unnested :
    let engine : Engine := { library := .ofDocuments ∅ }
    let query := fun name =>
      ((Element.leaf "query").setAttribute "name" name).setAttribute "expr" "x"
    let root := ((Element.leaf "tenet").addChild ((query "c").setAttribute "trace" "full")).addChild
      ((Element.leaf "simulate").addChildren [query "a", query "b"])
    let linked := engine.linkChecked root none
    (∀ i ∈ documents linked root, Session.Unnested i.root.children) ∧
    (engine.run linked root).trace.finished =
      (Announced.preorderAll (engine.announced linked root)).map Prod.snd ∧
    (engine.run linked root).trace.headers =
      ["trace query 'c'", "simulate query 'a'", "simulate query 'b'"] ∧
    (engine.run linked root).trace.finished =
      [["x = x", "c = x"], ["x = x", "a = x"], ["x = x", "b = x"]] := by
  intro engine query root linked
  have hunnested : ∀ i ∈ documents linked root, Session.Unnested i.root.children := by
    decide +kernel
  exact ⟨hunnested, (trace_announces engine linked root).2.2.2.2.2 hunnested, by decide +kernel,
    by decide +kernel⟩

/-- A simulated section in a branch that is simulated itself: the buffer of the query inside ends
first and takes the place of that of the branch, whose header comes first. -/
theorem trace_of_nested_simulation :
    let engine : Engine := { library := .ofDocuments ∅ }
    let query := ((Element.leaf "query").setAttribute "name" "inner").setAttribute "expr" "'a'"
    let branch := ((Element.leaf "branch").setAttribute "name" "outer").addChild
      ((Element.leaf "simulate").addChild query)
    let root := (Element.leaf "tenet").addChild ((Element.leaf "simulate").addChild branch)
    let linked := engine.linkChecked root none
    (engine.run linked root).trace.finished ≠
      (Announced.preorderAll (engine.announced linked root)).map Prod.snd ∧
    Announced.preorderAll (engine.announced linked root) =
      [("simulate branch 'outer'", ["branch "]), ("simulate query 'inner'", ["inner = a"])] ∧
    (engine.evaluate (some root) none).trace =
      ["simulate branch 'outer'", "simulate query 'inner'", "inner = a", "branch "] := by
  decide +kernel

end Engine

end Premise
