import Mathlib.Data.List.Dedup
import Premise.Proofs.Resolution
import Premise.Proofs.ShortestPath

/-!
What a graph holds after nodes and edges were added to it, one after the other.

An edge replaces the one of the same source and label, and its ends become nodes; nothing else is
ever changed. So the graph hangs on its additions as `Built` says, which one more addition keeps
(`Built.snoc`). A graph that a document declares is built from the nodes and edges written there,
and an edge that cannot be read adds nothing to it but a fault to the resolution.
-/

namespace Premise

/-- What tells an edge from all others of its graph. -/
def Edge.key (e : Edge) : String × String := (e.source, e.label)

namespace Graph

variable {g : Graph} {source label : String} {additions : List Addition}

/-- Where the edge of a source and a label leads. -/
def target? (g : Graph) (source label : String) : Option String :=
  (g.edges.get? source).bind fun targets => targets.get? label

theorem mem_edgeList {e : Edge} : e ∈ g.edgeList ↔ g.target? e.source e.label = some e.target := by
  obtain ⟨source, label, target⟩ := e
  rw [← mem_outgoing]
  unfold outgoing target?
  cases g.edges.get? source with
  | none => simp
  | some targets => exact Table.mem_toList

theorem map_key_edgeList (g : Graph) : g.edgeList.map Edge.key =
    g.edges.toList.flatMap fun e => e.2.names.map fun label => (e.1, label) := by
  unfold edgeList Table.names
  rw [List.map_flatMap]
  refine List.flatMap_congr fun e _ => ?_
  rw [List.map_map, List.map_map]
  rfl

theorem nodup_keys (g : Graph) : (g.edgeList.map Edge.key).Nodup := by
  rw [map_key_edgeList, List.nodup_flatMap]
  constructor
  · intro e _
    exact e.2.nodup_names.map fun a b h => (Prod.mk.inj h).2
  · refine g.edges.ascending.imp fun {e f} hlt x hx hx' => ?_
    obtain ⟨label, -, rfl⟩ := List.mem_map.mp hx
    obtain ⟨label', -, heq⟩ := List.mem_map.mp hx'
    exact String.ne_of_lt hlt (Prod.mk.inj heq).1.symm

/-! ### One addition -/

theorem target?_addEdge_self (g : Graph) (e : Edge) :
    (g.addEdge e).target? e.source e.label = some e.target := by
  unfold addEdge target?
  rw [Table.get?_insert_self]
  exact Table.get?_insert_self ..

theorem target?_addEdge_of_ne (g : Graph) {e : Edge} (h : ¬ (e.source = source ∧ e.label = label)) :
    (g.addEdge e).target? source label = g.target? source label := by
  unfold addEdge target?
  by_cases hsource : source = e.source
  · subst hsource
    have hlabel : label ≠ e.label := fun heq => h ⟨rfl, heq.symm⟩
    rw [Table.get?_insert_self, Option.bind_some, Table.get?_insert_of_ne _ _ hlabel]
    cases g.edges.get? e.source <;> rfl
  · rw [Table.get?_insert_of_ne _ _ hsource]

/-! ### All of them -/

/-- What is added to a graph in one step. -/
inductive Addition where
  | node (name : String)
  | edge (e : Edge)
  deriving Repr, DecidableEq

namespace Addition

def names : Addition → List String
  | .node name => [name]
  | .edge e => [e.source, e.target]

def edge? : Addition → Option Edge
  | .node _ => none
  | .edge e => some e

end Addition

def take (g : Graph) : Addition → Graph
  | .node name => g.addNode name
  | .edge e => g.addEdge e

def build (additions : List Addition) : Graph := additions.foldl take ∅

/-- The edges among additions, in their order. -/
def added (additions : List Addition) : List Edge := additions.filterMap Addition.edge?

/-- Where the last edge of a source and a label leads. -/
def lastTarget? (edges : List Edge) (source label : String) : Option String :=
  (edges.filter fun e => e.source = source ∧ e.label = label).getLast?.map Edge.target

/-- The graph holds what was added to it and nothing else: every name that came up is a node, of the
edges with one source and one label there is the last, and no source is listed without an edge. -/
structure Built (additions : List Addition) (g : Graph) : Prop where
  nodes : ∀ name, g.nodes.contains name = true ↔ ∃ a ∈ additions, name ∈ a.names
  target : ∀ source label, g.target? source label = lastTarget? (added additions) source label
  sources : ∀ source, g.edges.contains source = true ↔ ∃ e ∈ added additions, e.source = source

theorem built_empty : Built [] ∅ := by
  refine ⟨fun name => ?_, fun _ _ => rfl, fun source => ?_⟩
  · exact iff_of_false nofun fun ⟨a, ha, _⟩ => nomatch ha
  · exact iff_of_false nofun fun ⟨e, he, _⟩ => nomatch he

theorem added_snoc (additions : List Addition) (a : Addition) :
    added (additions ++ [a]) = added additions ++ a.edge?.toList := by
  unfold added
  rw [List.filterMap_append]
  cases a <;> rfl

theorem lastTarget?_snoc (edges : List Edge) (e : Edge) : lastTarget? (edges ++ [e]) source label =
    if e.source = source ∧ e.label = label then some e.target
    else lastTarget? edges source label := by
  unfold lastTarget?
  rw [List.filter_append]
  by_cases h : e.source = source ∧ e.label = label <;> simp [h]

theorem exists_mem_snoc {α : Type} {p : α → Prop} {as : List α} {a : α} :
    (∃ x ∈ as ++ [a], p x) ↔ p a ∨ ∃ x ∈ as, p x := by
  simp only [List.mem_append, List.mem_singleton, or_and_right, exists_or, exists_eq_left]
  exact or_comm

theorem Built.snoc (h : Built additions g) (a : Addition) :
    Built (additions ++ [a]) (g.take a) := by
  refine ⟨fun name => ?_, fun source label => ?_, fun source => ?_⟩
  · rw [exists_mem_snoc, ← h.nodes]
    cases a with
    | node other =>
      show (g.nodes.insert other ()).contains name = true ↔ _
      rw [Table.contains_insert]
      simp [Addition.names]
    | edge e =>
      show ((g.nodes.insert e.source ()).insert e.target ()).contains name = true ↔ _
      rw [Table.contains_insert, Table.contains_insert]
      simp [Addition.names, or_left_comm, or_assoc]
  · rw [added_snoc]
    cases a with
    | node other =>
      rw [show (Addition.node other).edge?.toList = [] from rfl, List.append_nil]
      exact h.target source label
    | edge e =>
      show (g.addEdge e).target? source label = lastTarget? (added additions ++ [e]) source label
      rw [lastTarget?_snoc, ← h.target]
      split
      · rename_i hsame
        obtain ⟨rfl, rfl⟩ := hsame
        exact target?_addEdge_self g e
      · rename_i hother
        exact target?_addEdge_of_ne g hother
  · rw [added_snoc]
    cases a with
    | node other =>
      rw [show (Addition.node other).edge?.toList = [] from rfl, List.append_nil]
      exact h.sources source
    | edge e =>
      show (g.addEdge e).edges.contains source = true ↔ ∃ f ∈ added additions ++ [e], _
      rw [exists_mem_snoc, ← h.sources]
      show (g.edges.insert e.source _).contains source = true ↔ _
      rw [Table.contains_insert, eq_comm]

theorem built_build (additions : List Addition) : Built additions (build additions) := by
  induction additions using List.reverseRecOn with
  | nil => exact built_empty
  | append_singleton additions a ih =>
    unfold build
    rw [List.foldl_append]
    exact ih.snoc a

/-! ### What follows -/

theorem mem_of_lastTarget? {edges : List Edge} {target : String}
    (h : lastTarget? edges source label = some target) : ⟨source, label, target⟩ ∈ edges := by
  unfold lastTarget? at h
  obtain ⟨e, he, rfl⟩ := Option.map_eq_some_iff.mp h
  obtain ⟨hmem, hsame⟩ := List.mem_filter.mp (List.mem_of_getLast? he)
  obtain ⟨rfl, rfl⟩ := of_decide_eq_true hsame
  exact hmem

theorem exists_lastTarget? {edges : List Edge} {e : Edge} (h : e ∈ edges) :
    ∃ target, lastTarget? edges e.source e.label = some target := by
  have hsame : e ∈ edges.filter fun f => f.source = e.source ∧ f.label = e.label :=
    List.mem_filter.mpr ⟨h, by simp⟩
  obtain ⟨f, hf⟩ := Option.isSome_iff_exists.mp
    (List.getLast?_isSome.mpr (List.ne_nil_of_mem hsame))
  exact ⟨f.target, by rw [lastTarget?, hf]; rfl⟩

theorem mem_added {e : Edge} : e ∈ added additions ↔ .edge e ∈ additions := by
  unfold added
  rw [List.mem_filterMap]
  constructor
  · rintro ⟨_ | f, hmem, heq⟩
    · cases heq
    · cases heq
      exact hmem
  · exact fun h => ⟨_, h, rfl⟩

namespace Built

theorem edges (h : Built additions g) {e : Edge} :
    e ∈ g.edgeList ↔ lastTarget? (added additions) e.source e.label = some e.target := by
  rw [mem_edgeList, h.target]

/-- Both ends of an edge are nodes. -/
theorem ends (h : Built additions g) {e : Edge} (he : e ∈ g.edgeList) :
    g.nodes.contains e.source = true ∧ g.nodes.contains e.target = true := by
  have hmem := mem_added.mp (mem_of_lastTarget? (h.edges.mp he))
  exact ⟨(h.nodes _).mpr ⟨_, hmem, by simp [Addition.names]⟩,
    (h.nodes _).mpr ⟨_, hmem, by simp [Addition.names]⟩⟩

/-- There are as many edges as there are pairs of a source and a label among those added. -/
theorem edgeCount (h : Built additions g) :
    g.edgeCount = ((added additions).map Edge.key).dedup.length := by
  rw [← length_edgeList, ← List.length_map Edge.key]
  have hperm := List.perm_ext_iff_of_nodup g.nodup_keys
    (List.nodup_dedup ((added additions).map Edge.key))
  refine (hperm.mpr fun key => ?_).length_eq
  rw [List.mem_dedup, List.mem_map, List.mem_map]
  constructor
  · rintro ⟨e, he, rfl⟩
    exact ⟨e, mem_of_lastTarget? (h.edges.mp he), rfl⟩
  · rintro ⟨e, he, rfl⟩
    obtain ⟨target, htarget⟩ := exists_lastTarget? he
    exact ⟨⟨e.source, e.label, target⟩, h.edges.mpr htarget, rfl⟩

end Built

end Graph

namespace Symbol

/-- What the pieces between the arrows of an edge are to be: its ends, and the label between them
unless it is left out. None of them is blank. -/
inductive ReadsEdge : List (List Char) → Edge → Prop
  | unlabelled {source target : List Char} (hsource : source ≠ []) (htarget : target ≠ []) :
      ReadsEdge [source, target] ⟨String.ofList source, Graph.defaultLabel, String.ofList target⟩
  | labelled {source label target : List Char} (hsource : source ≠ []) (hlabel : label ≠ [])
      (htarget : target ≠ []) : ReadsEdge [source, label, target]
        ⟨String.ofList source, String.ofList label, String.ofList target⟩

theorem edge?_eq_some {written : String} {e : Edge} : edge? written = some e ↔
    ReadsEdge ((Text.arrowPieces written.toList).map Text.trimChars) e := by
  unfold edge?
  generalize (Text.arrowPieces written.toList).map Text.trimChars = pieces
  constructor
  · intro h
    split at h
    · split at h
      · cases h
      · rename_i hblank
        cases h
        exact .unlabelled (by simp_all) (by simp_all)
    · split at h
      · cases h
      · rename_i hblank
        cases h
        exact .labelled (by simp_all) (by simp_all) (by simp_all)
    · cases h
  · intro h
    cases h with
    | unlabelled hsource htarget => simp [hsource, htarget]
    | labelled hsource hlabel htarget => simp [hsource, hlabel, htarget]

/-- What is added to the graph that lists of nodes and of edges declare. -/
def additions (nodes edges : String) : List Graph.Addition :=
  (Text.entries nodes).map .node ++ ((Text.entries edges).filterMap edge?).map .edge

/-- The edges of a list that cannot be read. -/
def malformedEdges (edges : String) : List String :=
  (Text.entries edges).filter fun written => (edge? written).isNone

theorem graphOf_eq (name nodes edges : String) : graphOf name nodes edges =
    { value := .graph (Graph.build (additions nodes edges))
      errors := (malformedEdges edges).map fun written => .malformedEdge written name } := by
  unfold graphOf Graph.build additions malformedEdges
  rw [List.foldl_append, List.foldl_map, List.foldl_map]
  rfl

/-- A declared graph has no fault but those of its malformed edges: a graph is what its shape
accepts. -/
theorem declare_graph {s : Surroundings} {e : Element} {d : Declared} (h : declare s e = .ok d)
    (hkind : d.symbol.kind = .graph) :
    let edges := (e.attribute? "edges").getD ""
    d.symbol.value = .graph (Graph.build (additions ((e.attribute? "nodes").getD "") edges)) ∧
      d.errors = (malformedEdges edges).map fun written => .malformedEdge written d.name := by
  obtain ⟨short, kind, declared, noted, -, -, -, -, hvalue, rfl⟩ := declare_eq_ok h
  have hkind : kind = .graph := hkind
  subst hkind
  simp only [valueOf, graphOf_eq] at hvalue
  cases hvalue
  exact ⟨rfl, List.append_nil _⟩

end Symbol

namespace Resolution

variable {scope : Option String} {external : SymbolTable} {r : Resolution} {e : Element}
  {name : String} {s : Symbol}

/-- A symbol that is added is that of a declaration which is taken. -/
theorem Adds.exists_declare (h : Adds scope e name s r (add scope external r e)) :
    ∃ d, Symbol.declare ⟨scope, r.table, external⟩ e = .ok d ∧ d.name = name ∧ d.symbol = s := by
  cases hdeclare : Symbol.declare ⟨scope, r.table, external⟩ e with
  | error error =>
    have hbound := h.bound
    rw [add_error hdeclare, h.free] at hbound
    cases hbound
  | ok d =>
    obtain ⟨short, hshort, hqualified, -, -⟩ := Symbol.declare_ok hdeclare
    obtain ⟨short', hshort', hname⟩ := h.named
    rw [hshort, Option.some_inj] at hshort'
    have hsame : d.name = name := by rw [hqualified, hname, hshort']
    have hbound := h.bound
    rw [add_ok hdeclare, hsame, Table.get?_insert_self] at hbound
    exact ⟨d, rfl, hsame, Option.some.inj hbound⟩

end Resolution

namespace Graph

/-- Whatever is added to the empty graph, the names that came up are its nodes; from each source,
each label leads where the last edge of both leads, and where there is none, nowhere; the ends of
its edges are nodes; and there are as many edges as pairs of a source and a label.

Every graph that a document declares is built in this way from the nodes and the edges written in
one of its declarations. Of these an edge that cannot be read comes to one fault each, and the
declaration to no others. -/
theorem graphs_built :
    (∀ additions : List Addition,
      Built additions (build additions) ∧
        (∀ e, e ∈ (build additions).edgeList ↔
          lastTarget? (added additions) e.source e.label = some e.target) ∧
        (∀ e ∈ (build additions).edgeList, (build additions).nodes.contains e.source = true ∧
          (build additions).nodes.contains e.target = true) ∧
        (build additions).edgeCount = ((added additions).map Edge.key).dedup.length) ∧
    (∀ written e, Symbol.edge? written = some e ↔
      Symbol.ReadsEdge ((Text.arrowPieces written.toList).map Text.trimChars) e) ∧
    ∀ scope external root name s,
      (resolve scope external root).table.get? name = some s → s.kind = .graph →
      ∃ before e rest, Resolution.declarations root = before ++ e :: rest ∧
        (∃ short, e.name? = some short ∧ name = Name.qualify scope short) ∧
        let edges := (e.attribute? "edges").getD ""
        s.value = .graph (build (Symbol.additions ((e.attribute? "nodes").getD "") edges)) ∧
        (Resolution.after scope external (before ++ [e])).faults =
          (Resolution.after scope external before).faults ++
            (Symbol.malformedEdges edges).map fun written =>
              Resolution.fault e (.malformedEdge written name) := by
  refine ⟨fun additions => ?_, fun written e => Symbol.edge?_eq_some, ?_⟩
  · have hbuilt := built_build additions
    exact ⟨hbuilt, fun e => hbuilt.edges, fun e he => hbuilt.ends he, hbuilt.edgeCount⟩
  intro scope external root name s hs hkind
  obtain ⟨before, e, rest, hsplit, hadds⟩ := Resolution.exists_adds hs
  refine ⟨before, e, rest, hsplit, hadds.named, ?_⟩
  rw [Resolution.after_append, List.foldl_cons, List.foldl_nil] at hadds ⊢
  obtain ⟨d, hdeclare, rfl, rfl⟩ := hadds.exists_declare
  obtain ⟨hvalue, herrors⟩ := Symbol.declare_graph hdeclare hkind
  refine ⟨hvalue, ?_⟩
  rw [Resolution.add_ok hdeclare, herrors, List.map_map]
  rfl

/-- A graph with an edge that is replaced, one that has no target, and one with a label. -/
def replacing : Element :=
  (Element.leaf "tenet").addChild ((Element.leaf Resolution.sectionTag).addChild
    ⟨"graph", Table.ofList [("name", "g"), ("nodes", "x"), ("edges", "a->b, a->c, a->, b->r->a")],
      [], none, some 3⟩)

theorem graphs_built_replacing :
    let additions : List Addition := [.edge ⟨"a", "to", "b"⟩, .edge ⟨"a", "to", "c"⟩]
    (⟨"a", "to", "c"⟩ ∈ (build additions).edgeList ∧
      (build additions).nodes.contains "a" = true ∧ (build additions).nodes.contains "c" = true ∧
      (build additions).edgeCount = 1) ∧
    ∃ s, (resolve none ∅ replacing).table.get? "g" = some s ∧ s.kind = .graph ∧
      ∃ before e rest, Resolution.declarations replacing = before ++ e :: rest ∧
        (∃ short, e.name? = some short ∧ "g" = Name.qualify none short) ∧
        let edges := (e.attribute? "edges").getD ""
        s.value = .graph (build (Symbol.additions ((e.attribute? "nodes").getD "") edges)) ∧
        (Resolution.after none ∅ (before ++ [e])).faults =
          (Resolution.after none ∅ before).faults ++
            (Symbol.malformedEdges edges).map fun written =>
              Resolution.fault e (.malformedEdge written "g") := by
  intro additions
  obtain ⟨-, -, hends, hcount⟩ := graphs_built.1 additions
  have hedge : ⟨"a", "to", "c"⟩ ∈ (build additions).edgeList := by decide +kernel
  have hgraph : ((resolve none ∅ replacing).table.get? "g").map Symbol.kind = some .graph := by
    decide +kernel
  obtain ⟨s, hs, hkind⟩ := Option.map_eq_some_iff.mp hgraph
  exact ⟨⟨hedge, (hends _ hedge).1, (hends _ hedge).2, hcount.trans (by decide +kernel)⟩,
    s, hs, hkind, graphs_built.2.2 none ∅ replacing "g" s hs hkind⟩

end Graph

end Premise
