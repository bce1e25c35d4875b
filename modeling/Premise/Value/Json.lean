import Premise.Value
import Premise.Json
import Premise.Number.Notation

/-!
Values in JSON form. Sets become arrays in their order; NaN and the infinities become null.
-/

namespace Premise

namespace Edge

def json (e : Edge) : Json :=
  .object [("from", .text e.source), ("relation", .text e.label), ("to", .text e.target)]

end Edge

namespace Graph

def json (g : Graph) : Json :=
  .object [("nodes", .array (g.nodes.names.map .text)), ("edges", .array (g.edgeList.map Edge.json))]

end Graph

namespace Number

/-- A number, or null where JSON has none. -/
def jsonValue (x : Number) : Json :=
  match parts x with
  | .finite .. => .number (json x)
  | _ => .null

end Number

namespace Value

mutual

def json : Value → Json
  | .null => .null
  | .number x => Number.jsonValue x
  | .text s => .text s
  | .boolean b => .boolean b
  | .list items => .array (jsonItems items)
  | .set items => .array (jsonItems items)
  | .graph g => g.json
  | .object fields => .object (jsonFields fields)
  | .error message => .object [("error", .text message)]

def jsonItems : List Value → List Json
  | [] => []
  | v :: vs => json v :: jsonItems vs

def jsonFields : List (String × Value) → List (String × Json)
  | [] => []
  | (name, v) :: rest => (name, json v) :: jsonFields rest

end

end Value

end Premise
