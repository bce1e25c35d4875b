import Premise.Graph.Path
import Premise.Value.Display
import Premise.Value.Membership

/-!
The builtin functions whose value hangs on their arguments alone: `error` and `path`.
-/

namespace Premise.Value

/-- An error value with the first argument as its message. -/
def errorOf : List Value → Value
  | [] => .error "error"
  | .text s :: _ => .error s
  | v :: _ => .error v.display

/-- The shortest path between two nodes of a graph, or null where no path leads. -/
def pathOf : List Value → Recovered
  | [.graph g, .text source, .text target] =>
    match g.shortestPath source target with
    | some nodes => ⟨.list (nodes.map .text), none⟩
    | none => ⟨.null, none⟩
  | [u, v, w] => ⟨.null, some (.pathOperands [u.typeName, v.typeName, w.typeName])⟩
  | vs => ⟨.null, some (.pathArguments vs.length)⟩

end Premise.Value
