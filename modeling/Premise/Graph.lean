import Premise.Table

/-!
Directed graphs with labelled edges. From a node each label leads to one other node, so an edge
with the source and the label of an earlier one replaces it.
-/

namespace Premise

structure Graph where
  nodes : NameSet
  /-- source, then label, to destination -/
  edges : Table (Table String)
  deriving DecidableEq

/-- One edge, as it is written `source->label->target`. -/
structure Edge where
  source : String
  label : String
  target : String
  deriving Repr, DecidableEq

namespace Graph

def empty : Graph := ⟨∅, ∅⟩

instance : EmptyCollection Graph := ⟨empty⟩
instance : Inhabited Graph := ⟨empty⟩

/-- The label of an edge that is written without one. -/
def defaultLabel : String := "to"

def addNode (g : Graph) (name : String) : Graph := { g with nodes := g.nodes.add name }

/-- Adds an edge and both its ends. -/
def addEdge (g : Graph) (e : Edge) : Graph where
  nodes := (g.nodes.add e.source).add e.target
  edges := g.edges.insert e.source (((g.edges.get? e.source).getD ∅).insert e.label e.target)

/-- All edges, by source and then by label. -/
def edgeList (g : Graph) : List Edge :=
  g.edges.toList.flatMap fun (source, targets) =>
    targets.toList.map fun (label, target) => ⟨source, label, target⟩

def edgeCount (g : Graph) : Nat := (g.edges.values.map Table.size).foldl (· + ·) 0

/-- Where one step leads from a node, in the order of the labels. -/
def neighbors (g : Graph) (name : String) : List String :=
  ((g.edges.get? name).map Table.values).getD []

def compareTargets (a b : String × String) : Ordering :=
  (compare a.1 b.1).then (compare a.2 b.2)

def compareSources (a b : String × Table String) : Ordering :=
  (compare a.1 b.1).then (List.compareLex compareTargets a.2.toList b.2.toList)

/-- Graphs are ordered by their nodes and then by their edges. -/
def compare (g h : Graph) : Ordering :=
  (List.compareLex Ord.compare g.nodes.names h.nodes.names).then
    (List.compareLex compareSources g.edges.toList h.edges.toList)

end Graph

end Premise
