import Premise.Value
import Premise.Number.Notation
import Premise.Text.Blank

/-!
Values as traces, messages and tables show them. Texts stand bare, except among the elements of a
list or set, where they are quoted.
-/

namespace Premise.Value

mutual

def display : Value → String
  | .null => "null"
  | .number x => Number.display x
  | .text s => s
  | .boolean b => if b then "true" else "false"
  | .list items => "[" ++ Text.joined ", " (displayElements items) ++ "]"
  | .set items => "\x7b" ++ Text.joined ", " (displayElements items) ++ "\x7d"
  | .graph g => "graph(" ++ toString g.nodes.size ++ " nodes, " ++ toString g.edgeCount ++ " edges)"
  | .object fields => "\x7b" ++ Text.joined ", " (displayFields fields) ++ "\x7d"
  | .error message => "error(\"" ++ message ++ "\")"

def displayElements : List Value → List String
  | [] => []
  | .text s :: rest => ("\"" ++ s ++ "\"") :: displayElements rest
  | v :: rest => display v :: displayElements rest

def displayFields : List (String × Value) → List String
  | [] => []
  | (name, v) :: rest => (name ++ ": " ++ display v) :: displayFields rest

end

end Premise.Value
