/-!
The operators of the expression language and how they are written.
-/

namespace Premise

inductive Arithmetic where
  | add
  | subtract
  | multiply
  | divide
  | modulo
  | power
  deriving Repr, DecidableEq

namespace Arithmetic

def symbol : Arithmetic → String
  | .add => "+"
  | .subtract => "-"
  | .multiply => "*"
  | .divide => "/"
  | .modulo => "%"
  | .power => "^"

def name : Arithmetic → String
  | .add => "addition"
  | .subtract => "subtraction"
  | .multiply => "multiplication"
  | .divide => "division"
  | .modulo => "modulo"
  | .power => "exponentiation"

end Arithmetic

inductive Comparison where
  | greater
  | less
  | greaterOrEqual
  | lessOrEqual
  | equal
  | notEqual
  deriving Repr, DecidableEq

namespace Comparison

def symbol : Comparison → String
  | .greater => ">"
  | .less => "<"
  | .greaterOrEqual => ">="
  | .lessOrEqual => "<="
  | .equal => "=="
  | .notEqual => "!="

def name : Comparison → String
  | .greater => "greater than"
  | .less => "less than"
  | .greaterOrEqual => "greater than or equal"
  | .lessOrEqual => "less than or equal"
  | .equal => "equal"
  | .notEqual => "not equal"

end Comparison

inductive Connective where
  | and
  | or
  | implies
  | iff
  deriving Repr, DecidableEq

namespace Connective

def symbol : Connective → String
  | .and => "&&"
  | .or => "||"
  | .implies => "=>"
  | .iff => "<=>"

end Connective

inductive SetOperator where
  | union
  | intersect
  | diff
  deriving Repr, DecidableEq

namespace SetOperator

def symbol : SetOperator → String
  | .union => "union"
  | .intersect => "intersect"
  | .diff => "diff"

end SetOperator

/-- Operators between two operands, except the right-associative power. -/
inductive BinaryOperator where
  | arithmetic (op : Arithmetic)
  | comparison (op : Comparison)
  | logical (op : Connective)
  | sets (op : SetOperator)
  | membership
  deriving Repr, DecidableEq

inductive UnaryOperator where
  | not
  | negative
  deriving Repr, DecidableEq

/-- The levels of binary operators, from the loosest to the tightest. -/
inductive Precedence where
  | logical
  | comparison
  | additive
  | multiplicative
  deriving Repr, DecidableEq

end Premise
