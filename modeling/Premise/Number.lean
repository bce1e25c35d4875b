/-!
Numbers: binary floating point with 64 bits.

A number is its bits, so the two zeros are two numbers, and NaNs that differ in sign or payload are
as many. Arithmetic and numeric comparison are those of `Float`, where there is one NaN: a result
that is none of the numbers is that NaN, whichever went in. A change of sign leaves the other bits
as they are, those of NaN too.
-/

namespace Premise

structure Number where
  bits : UInt64

namespace Number

/-- The number that the bits stand for; all NaNs are the same there. -/
def toFloat (x : Number) : Float := Float.ofBits x.bits

def ofFloat (x : Float) : Number := ⟨x.toBits⟩

instance : Coe Number Float := ⟨toFloat⟩

instance : Coe Float Number := ⟨ofFloat⟩

def ofNat (n : Nat) : Number := Float.ofNat n

instance (n : Nat) : OfNat Number n := ⟨(OfNat.ofNat n : Float)⟩

instance : OfScientific Number where
  ofScientific mantissa negative exponent :=
    (OfScientific.ofScientific mantissa negative exponent : Float)

instance : Add Number := ⟨fun x y => ((x : Float) + (y : Float) : Float)⟩

instance : Sub Number := ⟨fun x y => ((x : Float) - (y : Float) : Float)⟩

instance : Mul Number := ⟨fun x y => ((x : Float) * (y : Float) : Float)⟩

instance : Div Number := ⟨fun x y => ((x : Float) / (y : Float) : Float)⟩

instance : HomogeneousPow Number := ⟨fun x y => ((x : Float) ^ (y : Float) : Float)⟩

instance : Neg Number := ⟨fun x => ⟨x.bits ^^^ 0x8000000000000000⟩⟩

instance : BEq Number := ⟨fun x y => (x : Float) == (y : Float)⟩

instance : LT Number := ⟨fun x y => (x : Float) < (y : Float)⟩

instance : LE Number := ⟨fun x y => (x : Float) ≤ (y : Float)⟩

instance (x y : Number) : Decidable (x < y) :=
  inferInstanceAs (Decidable ((x : Float) < (y : Float)))

instance (x y : Number) : Decidable (x ≤ y) :=
  inferInstanceAs (Decidable ((x : Float) ≤ (y : Float)))

def isNaN (x : Number) : Bool := (x : Float).isNaN

end Number

end Premise
