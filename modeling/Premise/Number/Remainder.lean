import Premise.Number.Binary

/-!
The exact remainder of a division that rounds toward zero: it has the sign of the dividend and is
smaller in size than the divisor.
-/

namespace Premise.Number

/-- The NaN that arithmetic comes to. -/
def nan : Number := ⟨0x7FF8000000000000⟩

def infinity : Number := ⟨0x7FF0000000000000⟩

/-- Remainder of `m * 2 ^ q` by `n * 2 ^ r`, in units of the smaller power. -/
def remainderParts (m : Nat) (q : Int) (n : Nat) (r : Int) : Nat × Int :=
  let e := min q r
  ((m * twoTo (q - e).toNat) % (n * twoTo (r - e).toNat), e)

def remainder (x y : Number) : Number :=
  match parts x, parts y with
  | .finite negative m q, .finite _ n r =>
    if n = 0 then nan
    else
      let p := remainderParts m q n r
      ofMantissa negative p.1 p.2
  | .finite .., .infinite _ => x
  | _, _ => nan

end Premise.Number
