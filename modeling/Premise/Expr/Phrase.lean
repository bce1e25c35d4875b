import Premise.Expr.Operator

/-!
Phrases: expressions as they are written, with parentheses, operator chains and runs of signs still
in place.
-/

namespace Premise

inductive Phrase where
  /-- digits, with the digits after the point if there is one -/
  | number (whole fraction : List Char)
  | text (content : String)
  | truth (b : Bool)
  | name (name : String)
  | call (name : String) (arguments : List Phrase)
  | group (inner : Phrase)
  | signed (op : UnaryOperator) (operand : Phrase)
  | power (base exponent : Phrase)
  /-- operands of one level with the operators between them, to be taken from the left -/
  | chain (first : Phrase) (rest : List (BinaryOperator × Phrase))
  deriving Inhabited

end Premise
