import Premise.Proofs.Program
import Premise.Proofs.Refusal

/-!
Tracing only observes.

What is traced hangs on the trace, and nothing else does: sessions that differ in their traces alone
do so after every element (`visit_congr`). An element that asks for a trace can therefore be
replaced by one that does not. A `simulate` section becomes a section of queries, and a query loses
its `trace` attribute, wherever neither a handler nor a declaration gets to see the difference: a
handler is given its element as it stands, and a declaration of an unknown kind is reported by its
tag.
-/

namespace Premise

open Link (importTag)

namespace Table

variable {α : Type}

/-- The table with nothing bound to the name. -/
def erase (t : Table α) (name : String) : Table α :=
  ⟨t.entries.filter fun e => e.1 ≠ name, t.ascending.filter _⟩

theorem get?_erase_of_ne (t : Table α) {name other : String} (h : other ≠ name) :
    (t.erase name).get? other = t.get? other := by
  obtain ⟨es, hes⟩ := t
  show Entries.get? (es.filter fun e => e.1 ≠ name) other = Entries.get? es other
  clear hes
  induction es with
  | nil => rfl
  | cons e es ih =>
    obtain ⟨n, a⟩ := e
    rw [Entries.get?]
    by_cases hn : n = name
    · rw [List.filter_cons_of_neg (by simp [hn]), ih, if_neg fun heq => h (heq.symm.trans hn)]
    · rw [List.filter_cons_of_pos (by simp [hn]), Entries.get?, ih]

theorem erase_erase (t : Table α) (name : String) : (t.erase name).erase name = t.erase name := by
  simp only [erase, List.filter_filter, Bool.and_self]

end Table

namespace Role

/-- Whether the children of such elements are visited. -/
def entersChildren : Role → Bool
  | .evaluated | .simulated | .branch => true
  | .declarations | .query | .quantifier _ | .aggregate | .assertion | .domain => false

end Role

namespace Element

/-- Where an element stands: whether it is visited, and whether it is a declaration. -/
structure Place where
  visited : Bool
  declared : Bool

def Place.inside (place : Place) (tag : String) : Place :=
  ⟨place.visited && (Role.ofTag tag).entersChildren, (leaf tag).isSection⟩

/-- A section of queries instead of one that is traced. A declaration keeps the tag that it is
reported by. -/
def untracedTag (declared : Bool) (tag : String) : String :=
  if tag = "simulate" ∧ declared = false then "queries" else tag

def untracedAttributes (tag : String) (attributes : Table String) : Table String :=
  if tag = "query" then attributes.erase "trace" else attributes

theorem untracedTag_eq {tag : String} (h : Role.ofTag tag ≠ .simulated) (declared : Bool) :
    untracedTag declared tag = tag := by
  refine if_neg fun hsimulate => ?_
  rw [hsimulate.1] at h
  exact h rfl

theorem untracedAttributes_eq {tag : String} (h : Role.ofTag tag ≠ .query)
    (attributes : Table String) : untracedAttributes tag attributes = attributes := by
  refine if_neg fun hquery => ?_
  rw [hquery] at h
  exact h rfl

theorem get?_untracedAttributes {name : String} (h : name ≠ "trace") (tag : String)
    (attributes : Table String) :
    (untracedAttributes tag attributes).get? name = attributes.get? name := by
  unfold untracedAttributes
  split
  · exact attributes.get?_erase_of_ne h
  · rfl

mutual

/-- The element with nothing in it that asks for a trace. -/
def untraced (place : Place) : Element → Element
  | ⟨tag, attributes, children, text, line⟩ =>
    if place.visited ∧ Role.ofTag tag = .domain then ⟨tag, attributes, children, text, line⟩
    else ⟨untracedTag place.declared tag, untracedAttributes tag attributes,
      untracedAll (place.inside tag) children, text, line⟩

def untracedAll (place : Place) : List Element → List Element
  | [] => []
  | e :: es => untraced place e :: untracedAll place es

end

/-- The element with nothing that asks for a trace in itself and in its children. -/
def untracedWithin (declared : Bool) (inside : Place) (e : Element) : Element :=
  ⟨untracedTag declared e.tag, untracedAttributes e.tag e.attributes,
    untracedAll inside e.children, e.text, e.line⟩

/-- The document with nothing in it that asks for a trace. The root is not visited itself, but what
is inside it is. -/
def untracedDocument (root : Element) : Element :=
  root.untracedWithin false ⟨true, root.isSection⟩

theorem untraced_eq (place : Place) (e : Element) : e.untraced place =
    if place.visited ∧ Role.ofTag e.tag = .domain then e
    else e.untracedWithin place.declared (place.inside e.tag) := by
  cases e
  rw [untraced]
  rfl

end Element

namespace Session

/-! ### Sessions without their traces -/

/-- The session as if nothing had been traced. -/
def untraced (s : Session) : Session := { s with trace := {} }

theorem untraced_eq_iff {s s' : Session} : s.untraced = s'.untraced ↔
    s.writes = s'.writes ∧ s.faults = s'.faults ∧ s.generated = s'.generated := by
  simp [untraced]

theorem generated_eq {s s' : Session} (h : s.untraced = s'.untraced) :
    s.generated = s'.generated := (untraced_eq_iff.mp h).2.2

theorem Parallel.untraced {f : Frame} {s t s' t' : Session} (h : Parallel f f s t s' t')
    (hs : s.untraced = s'.untraced) : t.untraced = t'.untraced := by
  obtain ⟨⟨faults, writes, hf, hg⟩, hgen⟩ := h
  obtain ⟨hwrites, hfaults, hgenerated⟩ := untraced_eq_iff.mp hs
  refine untraced_eq_iff.mpr ⟨?_, ?_, hgen hgenerated⟩
  · rw [hf.writes, hg.writes, hwrites]
  · rw [hf.faults, hg.faults, hfaults]

variable (p : Program) (f : Frame)

theorem visit_congr (e : Element) {s s' : Session} (h : s.untraced = s'.untraced) :
    (visit p f s e).untraced = (visit p f s' e).untraced :=
  (visit_parallel p (.refl f) e (.inl (generated_eq h))).untraced h

theorem visitAll_congr (es : List Element) {s s' : Session} (h : s.untraced = s'.untraced) :
    (visitAll p f s es).untraced = (visitAll p f s' es).untraced :=
  (visitAll_parallel p (.refl f) es (.inl (generated_eq h))).untraced h

theorem conclude_congr (name : String) (line : Option Nat) (r : Run Value) {s s' : Session}
    (h : s.untraced = s'.untraced) :
    (s.conclude f name line r).untraced = (s'.conclude f name line r).untraced := by
  refine Parallel.untraced ⟨⟨_, _, .conclude f s name line r, .conclude f s' name line r⟩, ?_⟩ h
  intro hgen
  rw [generated_conclude, generated_conclude, hgen]

/-- Whether a query is traced or not, it is concluded under its name. -/
theorem query_untraced (s : Session) (e : Element) : (s.query p f e).untraced =
    ((s.nameOf e).2.conclude f (s.nameOf e).1 e.line (Construct.query p f e)).untraced := by
  rw [query_eq]
  split
  · exact conclude_congr f _ _ _ rfl
  · rfl

theorem simulateAll_untraced (es : List Element) (s : Session) :
    (simulateAll p f s es).untraced = (visitAll p f s es).untraced := by
  induction es generalizing s with
  | nil => rfl
  | cons e es ih =>
    rw [simulateAll, visitAll, ih]
    exact visitAll_congr p f es (visit_congr p f e rfl)

/-! ### Elements that ask for no trace -/

theorem query_congr {e e' : Element} (htag : e'.tag = e.tag) (htext : e'.text = e.text)
    (hline : e'.line = e.line)
    (hattribute : ∀ name, name ≠ "trace" → e'.attribute? name = e.attribute? name)
    (s : Session) : (s.query p f e').untraced = (s.query p f e).untraced := by
  have hname : s.nameOf e' = s.nameOf e := by
    simp only [nameOf, Element.name?, hattribute "name" (by decide), htag]
  have hrun : Construct.query p f e' = Construct.query p f e := by
    simp only [Construct.query, Construct.chainQuery, Element.trimmed?,
      Element.attributeOrContent?, Element.content?, List.findSome?,
      hattribute "chain" (by decide), hattribute "target" (by decide),
      hattribute "expr" (by decide), htext, hline]
  rw [query_untraced, query_untraced, hname, hrun, hline]

mutual

theorem visit_untraced (e : Element) (f : Frame) (s : Session) (declared : Bool) :
    (visit p f s (e.untraced ⟨true, declared⟩)).untraced = (visit p f s e).untraced := by
  cases e with
  | mk tag attributes children text line =>
    let place : Element.Place := ⟨true, declared⟩
    have hinside : (Role.ofTag tag).entersChildren = true → place.inside tag =
        ⟨true, (Element.leaf tag).isSection⟩ := by
      intro h
      show (⟨true && _, _⟩ : Element.Place) = _
      rw [h]
      rfl
    have hchildren : (Role.ofTag tag).entersChildren = true → ∀ f s,
        (visitAll p f s (Element.untracedAll (place.inside tag) children)).untraced =
          (visitAll p f s children).untraced := by
      intro h f s
      rw [hinside h]
      exact visitAll_untraced children f s _
    rw [Element.untraced]
    cases hrole : Role.ofTag tag with
    | domain => rw [if_pos ⟨rfl, rfl⟩]
    | simulated =>
      rw [if_neg (by simp), Element.untracedAttributes_eq (by rw [hrole]; nofun)]
      have hsections : (visitAll p f s (Element.untracedAll (place.inside tag) children)).untraced =
          (simulateAll p f s children).untraced := by
        rw [simulateAll_untraced]
        exact hchildren (by rw [hrole]; rfl) f s
      by_cases htag : tag = "simulate" ∧ declared = false
      · rw [Element.untracedTag, if_pos htag]
        simp only [visit, hrole]
        exact hsections
      · rw [Element.untracedTag, if_neg htag]
        simp only [visit, hrole]
        rw [simulateAll_untraced]
        exact hsections
    | query =>
      rw [if_neg (by simp), Element.untracedTag_eq (by rw [hrole]; nofun)]
      simp only [visit, hrole]
      refine query_congr p f ?_ ?_ ?_ (fun name hname => ?_) s
      · rfl
      · rfl
      · rfl
      · exact Element.get?_untracedAttributes hname tag attributes
    | declarations =>
      rw [if_neg (by simp), Element.untracedTag_eq (by rw [hrole]; nofun)]
      simp only [visit, hrole]
    | quantifier universal | aggregate | assertion =>
      rw [if_neg (by simp), Element.untracedTag_eq (by rw [hrole]; nofun),
        Element.untracedAttributes_eq (by rw [hrole]; nofun)]
      simp only [visit, hrole]
      rfl
    | evaluated | branch =>
      rw [if_neg (by simp), Element.untracedTag_eq (by rw [hrole]; nofun),
        Element.untracedAttributes_eq (by rw [hrole]; nofun)]
      simp only [visit, hrole]
      exact hchildren (by rw [hrole]; rfl) _ _

theorem visitAll_untraced (es : List Element) (f : Frame) (s : Session) (declared : Bool) :
    (visitAll p f s (Element.untracedAll ⟨true, declared⟩ es)).untraced =
      (visitAll p f s es).untraced := by
  cases es with
  | nil => rfl
  | cons e es =>
    rw [Element.untracedAll, visitAll, visitAll, visitAll_untraced es f _ declared]
    exact visitAll_congr p f es (visit_untraced e f s declared)

end

end Session

/-! ### What is found in a document that asks for no trace -/

namespace Element

theorem map_findAll_congr {β : Type} {e e' : Element} {tag : String} (view : Element → β)
    (htag : e'.tag = tag ↔ e.tag = tag) (hview : e.tag = tag → view e' = view e)
    (hrest : (tagged tag e'.children).map view = (tagged tag e.children).map view) :
    (e'.findAll tag).map view = (e.findAll tag).map view := by
  rw [findAll_eq_append, findAll_eq_append, List.map_append, List.map_append, hrest]
  by_cases h : e.tag = tag
  · rw [if_pos h, if_pos (htag.mpr h), List.map_singleton, List.map_singleton, hview h]
  · rw [if_neg h, if_neg (mt htag.mp h)]

variable {tag : String}

theorem untracedTag_eq_iff (htag : Role.ofTag tag = .declarations) (declared : Bool)
    (old : String) : untracedTag declared old = tag ↔ old = tag := by
  unfold untracedTag
  split
  · rename_i hsimulate
    rw [hsimulate.1]
    constructor <;> (rintro rfl; cases htag)
  · rfl

/-- What is seen of an element with the tag is there in the untraced one. -/
def Shows {β : Type} (tag : String) (view : Element → β) : Prop :=
  ∀ (e : Element) (declared : Bool) (inside : Place), e.tag = tag →
    inside.declared = e.isSection → view (e.untracedWithin declared inside) = view e

mutual

/-- No element with such a tag is found or lost, and what is seen of one is the same. -/
theorem map_findAll_untraced {β : Type} {view : Element → β}
    (htag : Role.ofTag tag = .declarations) (hview : Shows tag view) (e : Element)
    (place : Place) : ((e.untraced place).findAll tag).map view = (e.findAll tag).map view := by
  rw [untraced_eq]
  split
  · rfl
  · refine map_findAll_congr view (untracedTag_eq_iff htag _ _) (fun h => hview e _ _ h rfl) ?_
    cases e
    exact map_tagged_untraced htag hview _ _

theorem map_tagged_untraced {β : Type} {view : Element → β}
    (htag : Role.ofTag tag = .declarations) (hview : Shows tag view) (es : List Element)
    (place : Place) :
    (tagged tag (untracedAll place es)).map view = (tagged tag es).map view := by
  cases es with
  | nil => rfl
  | cons e es =>
    rw [untracedAll, tagged_cons, tagged_cons, List.map_append, List.map_append,
      map_findAll_untraced htag hview e place, map_tagged_untraced htag hview es place]

end

theorem map_findAll_untracedDocument {β : Type} {view : Element → β}
    (htag : Role.ofTag tag = .declarations) (hview : Shows tag view) (root : Element) :
    (root.untracedDocument.findAll tag).map view = (root.findAll tag).map view :=
  map_findAll_congr view (untracedTag_eq_iff htag _ _) (fun h => hview root _ _ h rfl)
    (map_tagged_untraced htag hview _ _)

mutual

theorem length_preorder_untraced (e : Element) (place : Place) :
    (preorder (e.untraced place)).length = (preorder e).length := by
  cases e with
  | mk tag attributes children text line =>
    rw [untraced]
    split
    · rfl
    · rw [preorder, preorder, List.length_cons, List.length_cons,
        length_preorderAll_untraced children _]

theorem length_preorderAll_untraced (es : List Element) (place : Place) :
    (preorderAll (untracedAll place es)).length = (preorderAll es).length := by
  cases es with
  | nil => rfl
  | cons e es =>
    rw [untracedAll, preorderAll, preorderAll, List.length_append, List.length_append,
      length_preorder_untraced e place, length_preorderAll_untraced es place]

end

theorem length_preorder_untracedDocument (root : Element) :
    (preorder root.untracedDocument).length = (preorder root).length := by
  rw [preorder_eq, preorder_eq]
  exact congrArg (· + 1) (length_preorderAll_untraced root.children _)

/-- What a declaration is read from. That of an unknown kind is not read. -/
def declaration (e : Element) : Element :=
  ⟨e.tag, untracedAttributes e.tag e.attributes, [], e.text, e.line⟩

theorem declaration_untraced (e : Element) (visited : Bool) :
    (e.untraced ⟨visited, true⟩).declaration = e.declaration := by
  cases e with
  | mk tag attributes children text line =>
    have htag : untracedTag true tag = tag := if_neg nofun
    have hattributes : untracedAttributes tag (untracedAttributes tag attributes) =
        untracedAttributes tag attributes := by
      unfold untracedAttributes
      split
      · exact attributes.erase_erase "trace"
      · rfl
    rw [untraced]
    split
    · rfl
    · simp only [declaration, htag, hattributes]

theorem map_declaration_untraced (es : List Element) (visited : Bool) :
    (untracedAll ⟨visited, true⟩ es).map declaration = es.map declaration := by
  induction es with
  | nil => rfl
  | cons e es ih => rw [untracedAll, List.map_cons, List.map_cons, declaration_untraced, ih]

theorem imports_untracedDocument (root : Element) :
    (root.untracedDocument.findAll importTag).map bare = (root.findAll importTag).map bare := by
  refine map_findAll_untracedDocument rfl (fun e declared inside htag _ => ?_) root
  have hrole : Role.ofTag e.tag = .declarations := by rw [htag]; rfl
  simp only [bare, untracedWithin, untracedTag_eq (by rw [hrole]; decide),
    untracedAttributes_eq (by rw [hrole]; decide)]

theorem declarations_untracedDocument (root : Element) (hsection : (leaf tag).isSection = true) :
    ((root.untracedDocument.findAll tag).flatMap children).map declaration =
      ((root.findAll tag).flatMap children).map declaration := by
  rw [List.map_flatMap, List.map_flatMap, List.flatMap_def, List.flatMap_def]
  refine congrArg List.flatten (map_findAll_untracedDocument (role_of_isSection hsection) ?_ root)
  rintro e declared ⟨visited, _⟩ rfl hinside
  cases hinside.trans hsection
  exact map_declaration_untraced e.children visited

end Element

/-! ### What a document that asks for no trace comes to -/

theorem Element.declaration_of_ne {d : Element} (h : d.tag ≠ "query") : d.declaration = d.bare := by
  rw [declaration, untracedAttributes, if_neg h]
  rfl

theorem Element.name?_declaration (d : Element) : d.declaration.name? = d.name? :=
  congrArg (Option.bind · Text.nonBlank?) (get?_untracedAttributes (by decide) d.tag d.attributes)

theorem Resolution.add_declaration (scope : Option String) (external : SymbolTable)
    (r : Resolution) (d : Element) :
    add scope external r d.declaration = add scope external r d := by
  by_cases h : d.tag = "query"
  · have hkind : SymbolKind.ofTag? d.tag = none := by rw [h]; rfl
    have hdeclare : ∀ s, Symbol.declare s d.declaration = Symbol.declare s d := by
      intro s
      simp only [Symbol.declare, d.name?_declaration, show d.declaration.tag = d.tag from rfl,
        hkind]
    rw [add, hdeclare]
    rfl
  · rw [Element.declaration_of_ne h, add_bare]

theorem Compilation.add_declaration (s : Rule.Surroundings) (c : Compilation) (d : Element) :
    add s c d.declaration = add s c d := by
  by_cases h : d.tag = "query"
  · have hkind : RuleKind.ofTag? d.tag = none := by rw [h]; rfl
    simp only [add, show d.declaration.tag = d.tag from rfl, hkind]
    rfl
  · rw [Element.declaration_of_ne h, add_bare]

theorem resolve_untracedDocument (space : Option String) (external : SymbolTable)
    (root : Element) :
    resolve space external root.untracedDocument = resolve space external root := by
  have hread : ∀ (ds : List Element) (r : Resolution),
      ds.foldl (Resolution.add space external) r =
        (ds.map Element.declaration).foldl (Resolution.add space external) r := by
    intro ds r
    rw [List.foldl_map]
    simp only [Resolution.add_declaration]
  unfold resolve Resolution.declarations
  rw [hread, root.declarations_untracedDocument (by rfl), ← hread]

theorem compile_untracedDocument (space : Option String) (symbols : SymbolTable) (limit : Nat)
    (root : Element) :
    compile space symbols limit root.untracedDocument = compile space symbols limit root := by
  have hread : ∀ (s : Rule.Surroundings) (ds : List Element) (c : Compilation),
      ds.foldl (Compilation.add s) c =
        (ds.map Element.declaration).foldl (Compilation.add s) c := by
    intro s ds c
    rw [List.foldl_map]
    simp only [Compilation.add_declaration]
  unfold compile Compilation.declarations
  rw [hread, root.declarations_untracedDocument (by rfl), ← hread]

theorem Link.link_untracedDocument (library : Library) (limits : Limits) (p : Position)
    (root : Element) :
    link library limits p root.untracedDocument = link library limits p root := by
  rw [link_eq, link_eq, gathered_bare, gathered_bare, root.imports_untracedDocument]
  simp only [finish, resolve_untracedDocument, compile_untracedDocument]

namespace Engine

theorem run_untracedDocument (engine : Engine) (linked : Linked) (root : Element) :
    (engine.run linked root.untracedDocument).untraced = (engine.run linked root).untraced :=
  Session.visitAll_untraced _ root.children _ _ _

/-- A document that asks for no trace comes to the same results and faults. -/
theorem evaluate_untracedDocument (engine : Engine) (root : Element) (source : Option String) :
    (engine.evaluate (some root.untracedDocument) source).results =
      (engine.evaluate (some root) source).results ∧
    (engine.evaluate (some root.untracedDocument) source).faults =
      (engine.evaluate (some root) source).faults := by
  have hsize := root.length_preorder_untracedDocument
  unfold evaluate
  rcases Nat.lt_or_ge engine.limits.elements (Element.preorder root).length with hlarge | hsmall
  · rw [check_of_lt hlarge, check_of_lt (hsize ▸ hlarge), hsize]
    exact ⟨rfl, rfl⟩
  · rw [check_of_le hsmall, check_of_le (hsize ▸ hsmall)]
    have hlinked : engine.linkChecked root.untracedDocument source =
        engine.linkChecked root source := Link.link_untracedDocument ..
    obtain ⟨hwrites, hfaults, -⟩ := Session.untraced_eq_iff.mp
      (run_untracedDocument engine (engine.linkChecked root source) root)
    simp only [hlinked]
    exact ⟨congrArg Table.ofList hwrites, hfaults⟩

/-- Tracing only observes. It leaves no mark on a session but in its trace; a document comes to the
same results and faults without asking for a trace; and so do any two documents that are the same
but for what asks for one. -/
theorem tracing_observes :
    (∀ (p : Program) (f : Frame) (e : Element) (s s' : Session), s.untraced = s'.untraced →
      (Session.visit p f s e).untraced = (Session.visit p f s' e).untraced) ∧
    (∀ (engine : Engine) (root : Element) (source : Option String),
      let quiet := engine.evaluate (some root.untracedDocument) source
      quiet.results = (engine.evaluate (some root) source).results ∧
      quiet.faults = (engine.evaluate (some root) source).faults) ∧
    (∀ (engine : Engine) (root root' : Element) (source : Option String),
      root.untracedDocument = root'.untracedDocument →
      (engine.evaluate (some root) source).results =
        (engine.evaluate (some root') source).results ∧
      (engine.evaluate (some root) source).faults =
        (engine.evaluate (some root') source).faults) := by
  refine ⟨fun p f e s s' => Session.visit_congr p f e, evaluate_untracedDocument,
    fun engine root root' source h => ?_⟩
  obtain ⟨hresults, hfaults⟩ := engine.evaluate_untracedDocument root source
  obtain ⟨hresults', hfaults'⟩ := engine.evaluate_untracedDocument root' source
  rw [← hresults, ← hfaults, ← hresults', ← hfaults', h]
  exact ⟨rfl, rfl⟩

/-- A branch with a query that asks for a trace, in a section of that tag. -/
def branching (tag : String) (query : Element) : Element :=
  (Element.leaf "tenet").addChild ((Element.leaf tag).addChild
    ((Element.leaf "branch").addChild query))

theorem tracing_observes_branching :
    let engine : Engine := { library := Link.unitLibrary }
    let query := (Element.leaf "query").setAttribute "expr" "'a'"
    let loud := branching "simulate" (query.setAttribute "trace" "full")
    let quiet := branching "queries" query
    loud.untracedDocument = quiet.untracedDocument ∧
    (engine.evaluate (some loud) none).results = (engine.evaluate (some quiet) none).results ∧
    (engine.evaluate (some quiet) none).results.names = ["branch1.query1"] ∧
    (engine.evaluate (some loud) none).trace.length = 3 ∧
    (engine.evaluate (some quiet) none).trace.length = 0 ∧
    (Session.visit ⟨∅, ∅, ∅, {}⟩ (.ofDocument (.ofTable ∅) none) {} loud).untraced =
      (Session.visit ⟨∅, ∅, ∅, {}⟩ (.ofDocument (.ofTable ∅) none)
        { trace := { active := some [] } } loud).untraced := by
  intro engine query loud quiet
  have hsame : loud.untracedDocument = quiet.untracedDocument := by rfl
  exact ⟨hsame, (tracing_observes.2.2 engine loud quiet none hsame).1, by decide +kernel,
    by decide +kernel, by decide +kernel, tracing_observes.1 _ _ loud _ _ rfl⟩

/-- A declaration of an unknown kind is reported by its tag, whether or not a section goes by it. -/
theorem declared_simulation_reported :
    let engine : Engine := { library := Link.unitLibrary }
    let declaring := fun tag => (Element.leaf "tenet").addChild
      ((Element.leaf "symbols").addChild ((Element.leaf tag).setAttribute "name" "x"))
    (engine.evaluate (some (declaring "simulate")) none).faults.map Fault.message ≠
      (engine.evaluate (some (declaring "queries")) none).faults.map Fault.message := by
  decide +kernel

end Engine

end Premise
