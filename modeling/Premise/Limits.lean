/-!
Bounds on what a document may ask for.
-/

namespace Premise

structure Limits where
  /-- levels of nesting in one expression -/
  expression : Nat := 100
  /-- nested evaluations, rule calls included -/
  evaluation : Nat := 256
  /-- imports within imports -/
  imports : Nat := 32
  /-- elements of one document -/
  elements : Nat := 100000
  deriving Repr, DecidableEq

end Premise
