/-!
Products without a sign: a number directly before a name, as in `2x`, is read as `2*x`.

The `*` is written into the text before it is parsed. Quoted text stays as it is, and so do digits
inside a name, as in `x2y`.
-/

namespace Premise.Expr

def isNameChar (c : Char) : Bool := c.isAlphanum || c = '_' || c = '.'

def isNameStart (c : Char) : Bool := c.isAlpha || c = '_'

def isQuote (c : Char) : Bool := c = '"' || c = '\''

/-- Where in a text the next character stands. -/
inductive Place where
  /-- outside quotes and numbers; a digit starts a number only when no name goes before -/
  | plain (afterName : Bool)
  /-- behind a digit or point of a number -/
  | number
  | quoted (quote : Char)

/-- The place behind a character that is neither quoted nor part of a number. -/
def Place.afterPlain (afterName : Bool) (c : Char) : Place :=
  if isQuote c then .quoted c
  else if c.isDigit && !afterName then .number
  else .plain (isNameChar c)

/-- Writes the missing `*` into a text whose first character stands at the place. -/
def withProducts : Place → List Char → List Char
  | _, [] => []
  | .quoted q, c :: cs => c :: withProducts (if c = q then .plain false else .quoted q) cs
  | .number, c :: cs =>
    if c.isDigit || c = '.' then c :: withProducts .number cs
    else if isNameStart c then '*' :: c :: withProducts (.plain true) cs
    else c :: withProducts (Place.afterPlain true c) cs
  | .plain afterName, c :: cs => c :: withProducts (Place.afterPlain afterName c) cs

/-- The text with all its products written out. -/
def expandProducts (s : String) : String := String.ofList (withProducts (.plain false) s.toList)

end Premise.Expr
