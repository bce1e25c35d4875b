import Premise.Number.Binary

/-!
The total order on numbers: by sign and then by size of the bit patterns. So −0 lies below 0, NaN
with its sign set below every other number and without above, and of such NaNs the one whose payload
is larger is further out. It differs from `<`, which orders neither NaN nor the two zeros.
-/

namespace Premise.Number

/-- The integer by which numbers are ordered: bit patterns counted upwards from 0, and downwards
from -1 for negative numbers. -/
def orderKey (x : Number) : Int :=
  let n := x.bits.toNat
  if n < twoTo 63 then n else (twoTo 63 : Int) - 1 - n

def compareTotal (x y : Number) : Ordering := compare (orderKey x) (orderKey y)

end Premise.Number
