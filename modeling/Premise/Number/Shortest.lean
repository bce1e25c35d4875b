import Premise.Number.Binary

/-!
The shortest decimal that reads back to a number.

A finite number stands for the interval of reals that are rounded to it. On the decimal grids of
1, 2, … 17 significant digits the two neighbours of the number are tried; the first grid with one
of them in the interval wins, and of two the nearer.
-/

namespace Premise.Number

/-- A power of ten. -/
def tenTo (n : Nat) : Nat := Nat.pow 10 n

/-- `digits * 10 ^ exponent`. -/
structure Decimal where
  digits : Nat
  exponent : Int
  deriving Repr, DecidableEq

/-- What to do when two decimals of the same length are equally near. -/
inductive Tie where
  | toEven
  | up
  deriving Repr, DecidableEq

/-- Compares `a * 10 ^ i` with `n * 2 ^ j`, exactly. -/
def compareScaled (a : Nat) (i : Int) (n : Nat) (j : Int) : Ordering :=
  compare (a * tenTo i.toNat * twoTo (-j).toNat) (n * twoTo j.toNat * tenTo (-i).toNat)

/-- Whether a decimal lies in the interval of reals that are rounded to `mantissa * 2 ^ exponent`;
the ends belong to it when the mantissa is even. -/
def readsBack (mantissa : Nat) (exponent : Int) (narrowBelow : Bool) (d : Decimal) : Bool :=
  let low := if narrowBelow then 4 * mantissa - 1 else 4 * mantissa - 2
  let high := 4 * mantissa + 2
  let closed := mantissa % 2 = 0
  let atLow := compareScaled d.digits d.exponent low (exponent - 2)
  let atHigh := compareScaled d.digits d.exponent high (exponent - 2)
  (atLow = .gt || (closed && atLow = .eq)) && (atHigh = .lt || (closed && atHigh = .eq))

/-- The least `k` with `mantissa * 2 ^ exponent < 10 ^ k`, for a positive mantissa. -/
def decimalScale (mantissa : Nat) (exponent : Int) : Int :=
  let estimate := (exponent + mantissa.log2) * 30103 / 100000 - 1
  let candidates := (List.range 5).map fun i : Nat => estimate + i
  (candidates.find? fun k => compareScaled 1 k mantissa exponent = .gt).getD (estimate + 5)

/-- The neighbour of the number on the grid `10 ^ grid` that reads back, the nearer of two. -/
def onGrid? (tie : Tie) (mantissa : Nat) (exponent : Int) (narrowBelow : Bool) (grid : Int) :
    Option Decimal :=
  let num := mantissa * twoTo exponent.toNat * tenTo (-grid).toNat
  let den := twoTo (-exponent).toNat * tenTo grid.toNat
  let below : Decimal := ⟨num / den, grid⟩
  let above : Decimal := ⟨num / den + 1, grid⟩
  match readsBack mantissa exponent narrowBelow below,
      readsBack mantissa exponent narrowBelow above with
  | false, false => none
  | true, false => some below
  | false, true => some above
  | true, true =>
    match compare (2 * num) ((2 * (num / den) + 1) * den), tie with
    | .lt, _ => some below
    | .gt, _ => some above
    | .eq, .up => some above
    | .eq, .toEven => some (if num / den % 2 = 0 then below else above)

/-- Moves trailing zeros of the digits into the exponent. -/
def Decimal.strip : Nat → Decimal → Decimal
  | 0, d => d
  | steps + 1, d =>
    if d.digits ≠ 0 ∧ d.digits % 10 = 0 then strip steps ⟨d.digits / 10, d.exponent + 1⟩ else d

/-- The decimal value of `mantissa * 2 ^ exponent`, digit for digit. -/
def exactDecimal (mantissa : Nat) (exponent : Int) : Decimal :=
  ⟨mantissa * twoTo exponent.toNat * Nat.pow 5 (-exponent).toNat, min exponent 0⟩

def shortest (tie : Tie) (mantissa : Nat) (exponent : Int) (narrowBelow : Bool) : Decimal :=
  if mantissa = 0 then ⟨0, 0⟩
  else
    let scale := decimalScale mantissa exponent
    let found := (List.range 17).findSome? fun i : Nat =>
      onGrid? tie mantissa exponent narrowBelow (scale - (i + 1))
    (found.getD (exactDecimal mantissa exponent)).strip 20

end Premise.Number
