import Premise.Graph

/-!
Shortest paths by breadth-first search.

The search keeps, for every node that it has found, the node it was found from, and a queue of those
that were found and not left yet. Once the target is found, the path is read off backwards from it.
Every node is queued at most once, the start included, which bounds the number of steps.
-/

namespace Premise.Graph

/-- What would keep a search from its answer. No search comes to either. -/
inductive SearchError where
  /-- it is not known from where a node on the way back was found -/
  | unknownOrigin (name : String)
  /-- there are nodes left to visit, but no steps -/
  | outOfSteps
  deriving Repr, DecidableEq

/-- A search under way. -/
structure Search where
  /-- from where each node was found; the start counts as found from itself -/
  previous : Table String
  queue : List String

namespace Search

def start (source : String) : Search := ⟨(∅ : Table String).insert source source, [source]⟩

def discover (s : Search) (origin name : String) : Search :=
  ⟨s.previous.insert name origin, s.queue ++ [name]⟩

/-- Looks at nodes next to `origin` and discovers those that were not found before, until one of
them is the target. -/
def look (target origin : String) (s : Search) : List String → Search
  | [] => s
  | name :: names =>
    if s.previous.contains name then look target origin s names
    else if name = target then s.discover origin name
    else look target origin (s.discover origin name) names

end Search

/-- The nodes from the start to `name`, and then those of `path`. -/
def wayBack (previous : Table String) (source : String) :
    Nat → String → List String → Except SearchError (List String)
  | 0, _, _ => .error .outOfSteps
  | steps + 1, name, path =>
    if name = source then .ok (name :: path)
    else
      match previous.get? name with
      | some origin => wayBack previous source steps origin (name :: path)
      | none => .error (.unknownOrigin name)

/-- Leaves the nodes of the queue, one in each step, until the target is found. -/
def searchFrom (g : Graph) (source target : String) :
    Nat → Search → Except SearchError (Option (List String))
  | _, ⟨_, []⟩ => .ok none
  | 0, ⟨_, _ :: _⟩ => .error .outOfSteps
  | steps + 1, ⟨previous, current :: queue⟩ =>
    let s := Search.look target current ⟨previous, queue⟩ (g.neighbors current)
    if s.previous.contains target then
      (wayBack s.previous source s.previous.size target []).map some
    else searchFrom g source target steps s

def search (g : Graph) (source target : String) : Except SearchError (Option (List String)) :=
  if source = target then .ok (some [source])
  else searchFrom g source target (g.edgeCount + 1) (.start source)

/-- The nodes of a shortest path, both ends included, or nothing when no path leads there. -/
def shortestPath (g : Graph) (source target : String) : Option (List String) :=
  match search g source target with
  | .ok path => path
  | .error _ => none

end Premise.Graph
