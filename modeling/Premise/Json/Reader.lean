import Premise.Json.Token

/-!
JSON values from their tokens. The whole text has to be one value.
-/

namespace Premise.Json

mutual

/-- One value and the tokens behind it. -/
def readValue : Nat → List Token → Option (Json × List Token)
  | 0, _ => none
  | _ + 1, .value v :: rest => some (v, rest)
  | _ + 1, .openBracket :: .closeBracket :: rest => some (.array [], rest)
  | steps + 1, .openBracket :: rest =>
    (readItems steps rest).map fun (items, rest) => (.array items, rest)
  | _ + 1, .openBrace :: .closeBrace :: rest => some (.object [], rest)
  | steps + 1, .openBrace :: rest =>
    (readMembers steps rest).map fun (members, rest) => (.object members, rest)
  | _ + 1, _ => none

/-- The items of an array up to its closing bracket. -/
def readItems : Nat → List Token → Option (List Json × List Token)
  | 0, _ => none
  | steps + 1, ts =>
    match readValue steps ts with
    | some (v, .comma :: rest) => (readItems steps rest).map fun (vs, rest) => (v :: vs, rest)
    | some (v, .closeBracket :: rest) => some ([v], rest)
    | _ => none

/-- The members of an object up to its closing brace. -/
def readMembers : Nat → List Token → Option (List (String × Json) × List Token)
  | 0, _ => none
  | steps + 1, .value (.text name) :: .colon :: ts =>
    match readValue steps ts with
    | some (v, .comma :: rest) =>
      (readMembers steps rest).map fun (ms, rest) => ((name, v) :: ms, rest)
    | some (v, .closeBrace :: rest) => some ([(name, v)], rest)
    | _ => none
  | _ + 1, _ => none

end

/-- Reads JSON text. Each token is read by at most two steps. -/
def read? (s : String) : Option Json :=
  match tokens? s with
  | none => none
  | some ts =>
    match readValue (2 * ts.length + 2) ts with
    | some (v, []) => some v
    | _ => none

end Premise.Json
