import Premise.Graph
import Premise.Number.Remainder

/-!
Values: what symbols are bound to, what expressions evaluate to, and what is reported as a result.

A set keeps its elements in ascending order without repetition, an object its fields in ascending
order of their names; `Value.ofSet` and `Value.ofFields` build them so.
-/

namespace Premise

inductive Value where
  | null
  | number (x : Number)
  | text (s : String)
  | boolean (b : Bool)
  | list (items : List Value)
  | set (items : List Value)
  | graph (g : Graph)
  | object (fields : List (String × Value))
  /-- what `error(message)` yields; constraints report it -/
  | error (message : String)
  deriving Inhabited

namespace Value

/-- The name of a value's shape; the declared types go by the same names. -/
def typeName : Value → String
  | .null => "null"
  | .number _ => "number"
  | .text _ => "string"
  | .boolean _ => "boolean"
  | .list _ => "list"
  | .set _ => "set"
  | .graph _ => "graph"
  | .object _ => "object"
  | .error _ => "error"

def isTruthy : Value → Bool
  | .null => false
  | .boolean b => b
  | .number x => x != 0 && !x.isNaN
  | .text s => !s.isEmpty
  | .list _ | .set _ | .graph _ | .object _ | .error _ => true

def number? : Value → Option Number
  | .number x => some x
  | _ => none

def text? : Value → Option String
  | .text s => some s
  | _ => none

def isNaN : Value → Bool
  | .number x => x.isNaN
  | _ => false

def isNull : Value → Bool
  | .null => true
  | _ => false

/-- The elements of a collection, in its order. -/
def elements? : Value → Option (List Value)
  | .list items | .set items => some items
  | _ => none

/-- A set as the list of its elements; any other value as it is. -/
def materialized : Value → Value
  | .set items => .list items
  | v => v

/-- An object from fields in any order; of fields with one name the last counts. -/
def ofFields (fields : List (String × Value)) : Value :=
  .object (fields.foldl (fun es f => Entries.insert es f.1 f.2) [])

end Value

end Premise
