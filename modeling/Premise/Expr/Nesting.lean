import Premise.Expr.Product
import Premise.Text.Blank

/-!
An estimate of how deep an expression nests, from its characters alone: the most parentheses open
at once, the powers, and the longest run of `!` and `-`. It is an upper bound, and cheap enough to
turn away a text before it is parsed.
-/

namespace Premise.Expr

/-- What is known of a text after some of its characters. -/
structure Scan where
  quote : Option Char := none
  opened : Nat := 0
  mostOpened : Nat := 0
  powers : Nat := 0
  run : Nat := 0
  longestRun : Nat := 0

namespace Scan

/-- Blanks do not end a run of `!` and `-`; every other character does. -/
def step (s : Scan) (c : Char) : Scan :=
  match s.quote with
  | some q => { s with quote := if c = q then none else some q, run := 0 }
  | none =>
    if c = '!' || c = '-' then
      { s with run := s.run + 1, longestRun := max s.longestRun (s.run + 1) }
    else if Text.isBlank c then s
    else if isQuote c then { s with quote := some c, run := 0 }
    else if c = '(' then
      { s with opened := s.opened + 1, mostOpened := max s.mostOpened (s.opened + 1), run := 0 }
    else if c = ')' then { s with opened := s.opened - 1, run := 0 }
    else if c = '^' then { s with powers := s.powers + 1, run := 0 }
    else { s with run := 0 }

end Scan

def estimateNesting (cs : List Char) : Nat :=
  let s := cs.foldl Scan.step {}
  s.mostOpened + s.powers + s.longestRun

end Premise.Expr
