import Premise.Depth
import Premise.Expr
import Premise.Expr.Error
import Premise.Expr.Phrase
import Premise.Name
import Premise.Number.Reading

/-!
Trees from phrases. Chains are taken from the left, parentheses disappear, and names are put behind
the namespace they are read under.

A leaf may be enclosed by as many levels as the limit says. Groups, arguments of calls and
exponents are one level each, and so is every sign; a chain adds one level for each operator that
the leaf ends up under.
-/

namespace Premise.Expr

/-- The level of a group, an argument or an exponent. -/
def nest (d : Depth) : Except ParseError Depth :=
  match d.enter? with
  | some deeper => .ok deeper
  | none => .error (.tooDeep (d.entered + 1) d.limit)

/-- The level of a sign or of an operator in a chain. -/
def nestOperator (d : Depth) : Except ParseError Depth :=
  match d.enter? with
  | some deeper => .ok deeper
  | none => .error (.tooManyOperators (d.entered + 1) d.limit)

mutual

def ofPhrase (names : Name.Reading) (d : Depth) : Phrase → Except ParseError (Expr Unit)
  | .number whole fraction => .ok (.literal () (.number (Number.Written.value ⟨whole, fraction, 0⟩)))
  | .text content => .ok (.literal () (.text content))
  | .truth b => .ok (.literal () (.boolean b))
  | .name name => .ok (.reference () (names.resolve name))
  | .call name arguments => do
    let arguments ← ofArguments names d arguments
    .ok (.call () (names.resolve name) arguments)
  | .group inner => do
    let deeper ← nest d
    ofPhrase names deeper inner
  | .signed op operand => do
    let deeper ← nestOperator d
    let operand ← ofPhrase names deeper operand
    .ok (unary () op operand)
  | .power base exponent => do
    let base ← ofPhrase names d base
    let deeper ← nest d
    let exponent ← ofPhrase names deeper exponent
    .ok (.arithmetic () .power base exponent)
  | .chain first rest => do
    let left ← ofPhrase names d first
    ofLinks names d left rest

def ofArguments (names : Name.Reading) (d : Depth) :
    List Phrase → Except ParseError (List (Expr Unit))
  | [] => .ok []
  | phrase :: phrases => do
    let deeper ← nest d
    let argument ← ofPhrase names deeper phrase
    let arguments ← ofArguments names d phrases
    .ok (argument :: arguments)

/-- Folds the rest of a chain onto the tree of what stands to its left. -/
def ofLinks (names : Name.Reading) (d : Depth) (left : Expr Unit) :
    List (BinaryOperator × Phrase) → Except ParseError (Expr Unit)
  | [] => .ok left
  | (op, phrase) :: rest => do
    let deeper ← nestOperator d
    let right ← ofPhrase names deeper phrase
    ofLinks names deeper (binary () op left right) rest

end

end Premise.Expr
