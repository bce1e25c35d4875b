import Premise.Number.Remainder

/-!
Aggregates: functions that sum numbers up to one.
-/

namespace Premise

inductive Aggregate where
  | count
  | sum
  | min
  | max
  | avg
  deriving Repr, DecidableEq

namespace Aggregate

def name : Aggregate → String
  | .count => "count"
  | .sum => "sum"
  | .min => "min"
  | .max => "max"
  | .avg => "avg"

def all : List Aggregate := [.count, .sum, .min, .max, .avg]

def ofName? (name : String) : Option Aggregate := all.find? fun a => a.name = name

theorem ofName?_name (a : Aggregate) : ofName? a.name = some a := by
  cases a <;> decide

/-- The smaller of two numbers; NaN gives way to the other. -/
def lesser (x y : Number) : Number := if x.isNaN then y else if y < x then y else x

/-- The greater of two numbers; NaN gives way to the other. -/
def greater (x y : Number) : Number := if x.isNaN then y else if x < y then y else x

/-- The sum from first to last; of no numbers it is −0, the number that adds nothing. -/
def total (xs : List Number) : Number := xs.foldl (· + ·) (-0.0)

def apply (a : Aggregate) (xs : List Number) : Number :=
  match a with
  | .count => Number.ofNat xs.length
  | .sum => total xs
  | .min => xs.foldl lesser Number.infinity
  | .max => xs.foldl greater (-Number.infinity)
  | .avg => total xs / Number.ofNat xs.length

end Aggregate

end Premise
