import Premise.Number

/-!
A number taken apart into sign, integer mantissa and power of two, and put together again.

Every finite number is exactly `mantissa * 2 ^ exponent`; what has to be exact about numbers (their
digits, their remainders, whether they are whole) is decided on these integers.
-/

namespace Premise.Number

def twoTo (n : Nat) : Nat := Nat.pow 2 n

inductive Parts where
  | nan
  | infinite (negative : Bool)
  | finite (negative : Bool) (mantissa : Nat) (exponent : Int)
  deriving Repr, DecidableEq

/-- The exponent of the least positive number. -/
def leastExponent : Int := -1074

def signBit (x : Number) : Bool := x.bits >>> 63 != 0

def exponentField (x : Number) : Nat := ((x.bits >>> 52) &&& 0x7FF).toNat

def fractionField (x : Number) : Nat := (x.bits &&& 0xFFFFFFFFFFFFF).toNat

def parts (x : Number) : Parts :=
  if exponentField x = 0x7FF then
    if fractionField x = 0 then .infinite (signBit x) else .nan
  else if exponentField x = 0 then .finite (signBit x) (fractionField x) leastExponent
  else .finite (signBit x) (twoTo 52 + fractionField x) (exponentField x - 1075)

/-- The gap to the number below is half the gap to the number above. -/
def isNarrowBelow (x : Number) : Bool := fractionField x = 0 && exponentField x > 1

/-- `mantissa * 2 ^ exponent`, where that is a number; the bits below the least exponent or the
53rd place are lost. -/
def ofMantissa (negative : Bool) (mantissa : Nat) (exponent : Int) : Number :=
  let sign : Nat := if negative then twoTo 63 else 0
  if mantissa = 0 then ⟨UInt64.ofNat sign⟩
  else
    let e := max (exponent + (mantissa.log2 + 1) - 53) leastExponent
    let m := if exponent ≤ e then mantissa >>> (e - exponent).toNat
      else mantissa <<< (exponent - e).toNat
    let magnitude := if m < twoTo 52 then m else (e + 1075).toNat * twoTo 52 + (m - twoTo 52)
    ⟨UInt64.ofNat (sign + magnitude)⟩

/-- The whole number that `mantissa * 2 ^ exponent` is, if it is one. -/
def whole? (mantissa : Nat) (exponent : Int) : Option Nat :=
  if 0 ≤ exponent then some (mantissa * twoTo exponent.toNat)
  else
    let d := twoTo (-exponent).toNat
    if mantissa % d = 0 then some (mantissa / d) else none

/-- Sign and size of a number that has no fractional part. -/
def integer? (x : Number) : Option (Bool × Nat) :=
  match parts x with
  | .finite negative m q => (whole? m q).map (negative, ·)
  | _ => none

end Premise.Number
