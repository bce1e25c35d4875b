/-!
What can be wrong with the text of an expression.
-/

namespace Premise

inductive ParseError where
  | empty
  /-- the text nests deeper than the limit -/
  | tooDeep (levels limit : Nat)
  /-- a chain of operators or a run of signs nests deeper than the limit -/
  | tooManyOperators (levels limit : Nat)
  | unexpectedEnd (source : String)
  /-- a character that no expression holds outside quotes -/
  | unsupported (c : Char) (column : Nat) (source : String)
  | unexpected (token : String) (column : Nat) (source : String)
  deriving Repr, DecidableEq

namespace ParseError

def tooDeepMessage (levels limit : Nat) : String :=
  s!"Expression nesting of {levels} exceeds the maximum depth of {limit}"

def message : ParseError → String
  | .empty => "Empty expression"
  | .tooDeep levels limit => tooDeepMessage levels limit
  | .tooManyOperators levels limit => tooDeepMessage levels limit
  | .unexpectedEnd source => s!"Unexpected end of expression '{source}'"
  | .unsupported c column source => s!"Unsupported character '{c}' at column {column} in '{source}'"
  | .unexpected token column source => s!"Unexpected token '{token}' at column {column} in '{source}'"

def advice : ParseError → Option String
  | .empty | .unsupported .. => none
  | .tooDeep .. => some "Split the expression into smaller rules"
  | .tooManyOperators .. =>
    some ("Each operator in a chain or prefix run adds one level of nesting; " ++
      "split it across smaller rules")
  | .unexpectedEnd _ => some "Check for unbalanced parentheses or a missing operand"
  | .unexpected .. => some "expected an operand, an operator or the end of the expression"

end ParseError

end Premise
