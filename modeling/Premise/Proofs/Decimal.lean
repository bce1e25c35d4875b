import Premise.Proofs.Number
import Premise.Number.Reading

/-!
Decimals are numbers: whatever is written, what is read is not NaN.

A decimal is the product or the quotient of two finite numbers that are not zero, rounded; of all
operations on them, only those on NaN and on a zero with an infinity come to NaN.
-/

namespace Premise.Number

open Float.Model (UnpackedFloat Format)
open Float.Model.UnpackedFloat

/-! ### Packing -/

theorem isNaN_unpack_iff (b : Pattern) : (UnpackedFloat.unpack Format.binary64 b).isNaN = true ↔
    unpackExponent b = -1#_ ∧ unpackMantissa b ≠ 0#_ := by
  unfold UnpackedFloat.unpack
  simp only
  split
  · rename_i hones
    split
    · rename_i hwhole
      exact iff_of_false (fun h => nomatch h) fun h => h.2 hwhole
    · rename_i hwhole
      exact iff_of_true rfl ⟨hones, hwhole⟩
  · rename_i hones
    refine iff_of_false (fun h => ?_) fun h => hones h.1
    split at h
    · split at h <;> cases h
    · cases h

/-- Only NaN is packed to a pattern of NaN. -/
theorem isNaN_pack (u : UnpackedFloat) :
    (UnpackedFloat.unpack Format.binary64 (UnpackedFloat.pack Format.binary64 u)).isNaN =
      u.isNaN := by
  have hinfinity : ∀ s, unpackMantissa (packedInfinity Format.binary64 s) = 0#_ := by
    intro s
    simp [packedInfinity]
  rw [Bool.eq_iff_iff, isNaN_unpack_iff]
  cases u with
  | notANumber => exact iff_of_true ⟨by decide, by decide⟩ rfl
  | infinity s => exact iff_of_false (fun h => h.2 (hinfinity s)) nofun
  | zero s => cases s <;> decide
  | finite s m e pos =>
    refine iff_of_false (fun h => ?_) nofun
    obtain ⟨hones, hwhole⟩ := h
    unfold UnpackedFloat.pack at hones hwhole
    simp only at hones hwhole
    split at hones
    · rename_i hlarge
      rw [if_pos hlarge] at hwhole
      exact hwhole (hinfinity s)
    · rename_i hsmall
      split at hones
      · rw [unpackExponent_packComponents] at hones
        have hvalue := congrArg BitVec.toNat hones
        simp at hvalue hsmall
        omega
      · rw [unpackExponent_packComponents] at hones
        exact absurd hones (by decide)

section

variable {u v : UnpackedFloat}

theorem isNaN_ofModel (u : UnpackedFloat) : (Float.ofModel (.pack u)).isNaN = u.isNaN := isNaN_pack u

/-! ### Operations -/

theorem isNaN_roundWithAccuracy (s : Sign) (m : Nat) (e : Int) (a : Accuracy) :
    (roundWithAccuracy Format.binary64 s m e a).isNaN = false := by
  unfold roundWithAccuracy
  simp only
  split <;> rfl

def isFiniteNonzero : UnpackedFloat → Bool
  | .finite .. => true
  | _ => false

theorem isNaN_mul (hu : u.isNaN = false) (hv : isFiniteNonzero v = true) :
    (UnpackedFloat.mul Format.binary64 u v).isNaN = false := by
  cases v with
  | notANumber | infinity s | zero s => cases hv
  | finite s m e pos =>
    cases u with
    | notANumber => cases hu
    | infinity t | zero t => rfl
    | finite t n d _ => exact isNaN_roundWithAccuracy _ _ _ _

theorem isNaN_div (hu : u.isNaN = false) (hv : isFiniteNonzero v = true) :
    (UnpackedFloat.div Format.binary64 u v).isNaN = false := by
  cases v with
  | notANumber | infinity s | zero s => cases hv
  | finite s m e pos =>
    cases u with
    | notANumber => cases hu
    | infinity t | zero t => rfl
    | finite t n d pos => exact isNaN_roundWithAccuracy _ _ _ _

end

theorem isNaN_toFloat (n : UInt64) : n.toFloat.isNaN = false := by
  refine (isNaN_ofModel _).trans ?_
  unfold ofUInt64 UnpackedFloat.ofNat ofInt UnpackedFloat.normalize UnpackedFloat.round
  split
  · exact isNaN_roundWithAccuracy _ _ _ _
  · rfl
  · exact isNaN_roundWithAccuracy _ _ _ _

theorem isFiniteNonzero_powersOfTen :
    Float.exactlyRepresentablePowersOfTen.all (fun x => isFiniteNonzero x.toModel.unpack) =
      true := by
  decide +kernel

theorem isNaN_scientific (m : Nat) (e : Int) :
    (UnpackedFloat.ofScientific Format.binary64 m e).isNaN = false := by
  unfold UnpackedFloat.ofScientific
  split
  · rfl
  split
  · rfl
  split
  · rfl
  split
  · exact isNaN_roundWithAccuracy _ _ _ _
  · exact isNaN_roundWithAccuracy _ _ _ _

theorem isNaN_ofScientific (m : Nat) (negative : Bool) (e : Nat) :
    (Float.ofScientific m negative e).isNaN = false := by
  unfold Float.ofScientific
  split
  · have hpower := Array.all_eq_true.mp isFiniteNonzero_powersOfTen e
      (show e < 23 by omega)
    split
    · exact (isNaN_ofModel _).trans (isNaN_div (isNaN_toFloat _) hpower)
    · exact (isNaN_ofModel _).trans (isNaN_mul (isNaN_toFloat _) hpower)
  · exact (isNaN_ofModel _).trans (isNaN_scientific m _)

theorem isNaN_ofFloat (x : Float) : (ofFloat x).isNaN = x.isNaN := isNaN_pack x.toModel.unpack

theorem sizeOf_neg (x : Number) : sizeOf (pattern (-x)) = sizeOf (pattern x) := by
  show (x.bits ^^^ 0x8000000000000000).toNat % 2 ^ 63 = x.bits.toNat % 2 ^ 63
  rw [UInt64.toNat_xor, Nat.xor_mod_two_pow]
  exact Nat.xor_zero _

theorem isNaN_neg (x : Number) : (-x).isNaN = x.isNaN := by
  rw [Bool.eq_iff_iff, isNaN_iff, isNaN_iff, sizeOf_neg]

/-! ### Decimals -/

theorem isNaN_value (w : Written) : w.value.isNaN = false := by
  unfold Written.value
  simp only
  split
  · rfl
  split
  · rfl
  split
  · rfl
  · exact (isNaN_ofFloat _).trans (isNaN_ofScientific _ _ _)

theorem isNaN_of_decimal? {cs : List Char} {x : Number} (h : decimal? cs = some x) :
    x.isNaN = false := by
  unfold decimal? at h
  split at h
  · obtain ⟨w, -, rfl⟩ := Option.map_eq_some_iff.mp h
    rw [isNaN_neg, isNaN_value]
  · obtain ⟨w, -, rfl⟩ := Option.map_eq_some_iff.mp h
    exact isNaN_value w

end Premise.Number
