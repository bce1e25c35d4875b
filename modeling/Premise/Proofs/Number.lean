import Mathlib
import Premise.Number.Order

/-!
Numbers by their bit patterns.

A pattern is a sign and a size: exponent and mantissa together, read as one integer, which grow with
the number (`compare_of_unpacks`). Numeric comparison looks at the size with its sign and leaves NaN
out, so that it takes the two zeros for one number. The total order looks at the pattern itself. The
two agree as far as numeric comparison goes: all that the total order adds is that −0 comes before 0
and that NaNs lie beyond the infinities, each on the side of its sign, by their payloads
(`compareTotal_eq_lt_iff`).

Numeric comparison is that of `Float`, where patterns of NaN do not last. So what is first shown is
that every other pattern is kept there (`pack_of_unpacks`, `ofFloat_toFloat`).
-/

namespace Premise.Number

open Float.Model (UnpackedFloat)
open Float.Model.UnpackedFloat (Sign unpackSign unpackExponent unpackMantissa packComponents)

/-! ### Taking a pattern apart -/

abbrev Pattern := BitVec Float.Model.Format.binary64.numBits

section

variable (b : Pattern)

theorem toNat_lt : b.toNat < 2 ^ 64 := b.isLt

theorem toNat_unpackMantissa : (unpackMantissa b).toNat = b.toNat % 2 ^ 52 := by
  simp [unpackMantissa, BitVec.extractLsb]

theorem toNat_unpackExponent : (unpackExponent b).toNat = b.toNat / 2 ^ 52 % 2 ^ 11 := by
  simp [unpackExponent, BitVec.extractLsb, Nat.shiftRight_eq_div_pow]

theorem toNat_unpackSign : (unpackSign b).toNat = b.toNat / 2 ^ 63 := by
  have hb := toNat_lt b
  simp only [unpackSign, BitVec.extractLsb, BitVec.toNat_cast, BitVec.extractLsb'_toNat,
    Nat.shiftRight_eq_div_pow]
  omega

theorem unpackExponent_eq_ones_iff :
    unpackExponent b = -1#_ ↔ b.toNat / 2 ^ 52 % 2 ^ 11 = 2047 := by
  rw [← toNat_unpackExponent, ← BitVec.toNat_inj]
  simp

theorem unpackExponent_eq_zero_iff :
    unpackExponent b = 0#_ ↔ b.toNat / 2 ^ 52 % 2 ^ 11 = 0 := by
  rw [← toNat_unpackExponent, ← BitVec.toNat_inj]
  simp

theorem unpackMantissa_eq_zero_iff : unpackMantissa b = 0#_ ↔ b.toNat % 2 ^ 52 = 0 := by
  rw [← toNat_unpackMantissa, ← BitVec.toNat_inj]
  simp

/-- What is left of a pattern without its sign. -/
def sizeOf : Nat := b.toNat % 2 ^ 63

def signOf : Sign := if b.toNat < 2 ^ 63 then .positive else .negative

theorem ofBitVec_unpackSign : Sign.ofBitVec (unpackSign b) = signOf b := by
  have hsign := toNat_unpackSign b
  have hb := toNat_lt b
  unfold Sign.ofBitVec signOf
  by_cases h : b.toNat < 2 ^ 63
  · have hzero : unpackSign b = 0#1 := BitVec.eq_of_toNat_eq (by rw [hsign]; simp; omega)
    rw [if_pos hzero, if_pos h]
  · have hone : unpackSign b ≠ 0#1 := by
      intro heq
      rw [heq, BitVec.toNat_ofNat] at hsign
      omega
    rw [if_neg hone, if_neg h]

end

/-- What a pattern of a sign and a size stands for. -/
inductive Unpacks (s : Sign) (size : Nat) : UnpackedFloat → Prop
  | zero (h : size = 0) : Unpacks s size (.zero s)
  | finite {m e : Nat} {exponent : Int} (pos : 0 < m) (h : size = e * 2 ^ 52 + m)
      (hexponent : exponent = e - 1074) (hmantissa : m < 2 ^ 53)
      (hnormal : 0 < e → 2 ^ 52 ≤ m) (hlow : e < 2046) :
      Unpacks s size (.finite s m exponent pos)
  | infinity (h : size = 2047 * 2 ^ 52) : Unpacks s size (.infinity s)
  | notANumber (h : 2047 * 2 ^ 52 < size) : Unpacks s size .notANumber

theorem unpacks (b : Pattern) : Unpacks (signOf b) (sizeOf b) (UnpackedFloat.unpack _ b) := by
  have hb := toNat_lt b
  have hmantissa := toNat_unpackMantissa b
  have hexponent := toNat_unpackExponent b
  have himplicit : (1#1 ++ unpackMantissa b).toNat = 2 ^ 52 + b.toNat % 2 ^ 52 := by
    rw [BitVec.toNat_append, ← Nat.shiftLeft_add_eq_or_of_lt (unpackMantissa b).isLt, hmantissa]
    rfl
  have hbias : Float.Model.Format.binary64.exponentBias = 1023 := rfl
  unfold UnpackedFloat.unpack sizeOf
  simp only [ofBitVec_unpackSign, hexponent, hmantissa, himplicit, hbias]
  split
  · rename_i hones
    rw [unpackExponent_eq_ones_iff] at hones
    split
    · rename_i hwhole
      rw [unpackMantissa_eq_zero_iff] at hwhole
      exact .infinity (by omega)
    · rename_i hwhole
      rw [unpackMantissa_eq_zero_iff] at hwhole
      exact .notANumber (by omega)
  · rename_i hones
    rw [unpackExponent_eq_ones_iff] at hones
    split
    · rename_i hnone
      rw [unpackExponent_eq_zero_iff] at hnone
      split
      · rename_i hwhole
        rw [unpackMantissa_eq_zero_iff] at hwhole
        exact .zero (by omega)
      · rename_i hwhole
        rw [unpackMantissa_eq_zero_iff] at hwhole
        exact @Unpacks.finite _ _ _ 0 _ _ (by omega) (by omega) (by omega) (by omega) (by omega)
    · rename_i hnone
      rw [unpackExponent_eq_zero_iff] at hnone
      exact @Unpacks.finite _ _ _ (b.toNat / 2 ^ 52 % 2 ^ 11 - 1) _ _ (by omega) (by omega)
        (by omega) (by omega) (by omega)

/-! ### Putting a pattern together -/

theorem toNat_packComponents (s : Sign) (e : BitVec 11) (m : BitVec 52) :
    (packComponents Float.Model.Format.binary64 s e m).toNat =
      s.toBitVec.toNat * 2 ^ 63 + e.toNat * 2 ^ 52 + m.toNat := by
  have hlow : (s.toBitVec ++ e).toNat = s.toBitVec.toNat * 2 ^ 11 + e.toNat := by
    rw [BitVec.toNat_append, ← Nat.shiftLeft_add_eq_or_of_lt e.isLt, Nat.shiftLeft_eq]
  show (s.toBitVec ++ e ++ m).toNat = _
  rw [BitVec.toNat_append, ← Nat.shiftLeft_add_eq_or_of_lt m.isLt, Nat.shiftLeft_eq, hlow]
  omega

theorem toNat_eq (b : Pattern) : b.toNat = (signOf b).toBitVec.toNat * 2 ^ 63 + sizeOf b := by
  have hb := toNat_lt b
  unfold signOf sizeOf
  split
  · show b.toNat = 0 * 2 ^ 63 + b.toNat % 2 ^ 63
    omega
  · show b.toNat = 1 * 2 ^ 63 + b.toNat % 2 ^ 63
    omega

theorem pack_finite (s : Sign) (m : Nat) (e : Int) (pos : 0 < m) :
    UnpackedFloat.pack Float.Model.Format.binary64 (.finite s m e pos) =
      if 2 ^ 11 ≤ (e + 1023 + 52).toNat + 1 then UnpackedFloat.packedInfinity _ s
      else if m.log2 + 1 = 53 then
        packComponents _ s (BitVec.ofNat 11 (e + 1023 + 52).toNat) (BitVec.ofNat 52 m)
      else packComponents _ s 0#11 (BitVec.ofNat 52 m) := rfl

/-- A pattern is kept by what it stands for, unless that is NaN. -/
theorem pack_of_unpacks {b : Pattern} {u : UnpackedFloat} (hu : Unpacks (signOf b) (sizeOf b) u)
    (hsize : sizeOf b ≤ 2047 * 2 ^ 52) : UnpackedFloat.pack _ u = b := by
  refine BitVec.eq_of_toNat_eq ?_
  rw [toNat_eq b]
  cases hu with
  | notANumber h => omega
  | zero h =>
    rw [h]
    exact (toNat_packComponents _ 0#11 0#52).trans (by simp)
  | infinity h =>
    rw [h]
    exact (toNat_packComponents _ (-1#11) 0#52).trans (by simp)
  | @finite m e exponent pos h hexponent hmantissa hnormal hlow =>
    have hbiased : (exponent + 1023 + 52).toNat = e + 1 := by omega
    rw [pack_finite, hbiased, if_neg (by omega)]
    split
    · rename_i hlog
      have hleading : 2 ^ 52 ≤ m := (Nat.le_log2 (by omega)).mp (by omega)
      refine (toNat_packComponents _ _ _).trans ?_
      rw [BitVec.toNat_ofNat, BitVec.toNat_ofNat, h]
      omega
    · rename_i hlog
      have hsmall : m < 2 ^ 52 := by
        have := (Nat.log2_lt (k := 53) (by omega : m ≠ 0)).mpr hmantissa
        exact (Nat.log2_lt (by omega)).mp (by omega)
      refine (toNat_packComponents _ _ _).trans ?_
      rw [BitVec.toNat_ofNat, BitVec.toNat_ofNat, h]
      omega

/-! ### Numeric comparison -/

theorem compare_natCast (m n : Nat) : compare (m : Int) (n : Int) = compare m n := by
  rcases Nat.lt_trichotomy m n with h | h | h
  · rw [Nat.compare_eq_lt.mpr h, Std.compare_eq_lt.mpr (by omega)]
  · rw [h, Std.compare_self, Std.compare_self]
  · rw [Nat.compare_eq_gt.mpr h, Std.compare_eq_gt.mpr (by omega)]

theorem compare_neg (a b : Int) : compare (-a) (-b) = (compare a b).swap := by
  rcases Int.lt_trichotomy a b with h | h | h
  · rw [Std.compare_eq_lt.mpr h, Std.compare_eq_gt.mpr (by omega)]
    rfl
  · rw [h, Std.compare_self, Std.compare_self]
    rfl
  · rw [Std.compare_eq_gt.mpr h, Std.compare_eq_lt.mpr (by omega)]
    rfl

/-- Mantissas are below the weight of the exponent, so exponent and mantissa are compared as the one
integer that they are written as. -/
theorem compare_parts {d e m n : Nat} {a b : Int} (ha : a = d - 1074) (hb : b = e - 1074)
    (hm : m < 2 ^ 53) (hn : n < 2 ^ 53) (hdm : 0 < d → 2 ^ 52 ≤ m) (hen : 0 < e → 2 ^ 52 ≤ n) :
    (compare a b).then (compare m n) = compare (d * 2 ^ 52 + m) (e * 2 ^ 52 + n) := by
  rcases Nat.lt_trichotomy d e with h | h | h
  · rw [Std.compare_eq_lt.mpr (show a < b by omega), Ordering.lt_then]
    exact (Nat.compare_eq_lt.mpr (by omega)).symm
  · subst h
    have hab : a = b := by omega
    rw [hab, Std.compare_self, Ordering.eq_then]
    rcases Nat.lt_trichotomy m n with h | h | h
    · rw [Nat.compare_eq_lt.mpr h, Nat.compare_eq_lt.mpr (by omega)]
    · rw [h, Std.compare_self, Std.compare_self]
    · rw [Nat.compare_eq_gt.mpr h, Nat.compare_eq_gt.mpr (by omega)]
  · rw [Std.compare_eq_gt.mpr (show b < a by omega), Ordering.gt_then]
    exact (Nat.compare_eq_gt.mpr (by omega)).symm

/-- Of two numbers, neither of them NaN, that one is less whose size with its sign is less. -/
theorem compare_of_unpacks {s t : Sign} {m n : Nat} {u v : UnpackedFloat} (hu : Unpacks s m u)
    (hv : Unpacks t n v) (hm : m ≤ 2047 * 2 ^ 52) (hn : n ≤ 2047 * 2 ^ 52) :
    u.compare v = some (compare (s.apply m) (t.apply n)) := by
  have less : ∀ {a b : Int}, a < b → some Ordering.lt = some (compare a b) :=
    fun h => congrArg some (Std.compare_eq_lt.mpr h).symm
  have more : ∀ {a b : Int}, b < a → some Ordering.gt = some (compare a b) :=
    fun h => congrArg some (Std.compare_eq_gt.mpr h).symm
  have bounds : ∀ (s : Sign) (n : Nat), -(n : Int) ≤ s.apply n ∧ s.apply n ≤ n := by
    intro s n
    cases s <;> simp only [Sign.apply] <;> omega
  have positive : ∀ n : Nat, Sign.apply .positive n = n := fun _ => rfl
  have negative : ∀ n : Nat, Sign.apply .negative n = -n := fun _ => rfl
  cases hu with
  | notANumber h => omega
  | zero h =>
    subst h
    have hzero := bounds s 0
    cases hv with
    | notANumber h => omega
    | zero h =>
      subst h
      cases s <;> cases t <;> rfl
    | infinity h =>
      subst h
      cases s <;> cases t <;> rfl
    | finite pos h =>
      cases t with
      | negative => exact more (by rw [negative]; omega)
      | positive => exact less (by rw [positive]; omega)
  | infinity h =>
    subst h
    cases hv with
    | notANumber h => omega
    | zero h =>
      subst h
      cases s <;> cases t <;> rfl
    | infinity h =>
      subst h
      cases s <;> cases t <;> rfl
    | finite pos h hexponent hmantissa hnormal hlow =>
      have hfinite := bounds t n
      cases s with
      | negative => exact less (by rw [negative]; omega)
      | positive => exact more (by rw [positive]; omega)
  | finite pos h hexponent hmantissa hnormal hlow =>
    have hfinite := bounds s m
    cases hv with
    | notANumber h => omega
    | zero h =>
      subst h
      have hzero := bounds t 0
      cases s with
      | negative => exact less (by rw [negative]; omega)
      | positive => exact more (by rw [positive]; omega)
    | infinity h' =>
      subst h'
      cases t with
      | negative => exact more (by rw [negative]; omega)
      | positive => exact less (by rw [positive]; omega)
    | finite pos' h' hexponent' hmantissa' hnormal' hlow' =>
      have hsizes := compare_parts hexponent hexponent' hmantissa hmantissa' hnormal hnormal'
      rw [← h, ← h'] at hsizes
      cases s with
      | negative =>
        cases t with
        | negative =>
          rw [negative, negative, compare_neg, compare_natCast, ← hsizes]
          rfl
        | positive => exact less (by rw [negative, positive]; omega)
      | positive =>
        cases t with
        | negative => exact more (by rw [negative, positive]; omega)
        | positive =>
          rw [positive, positive, compare_natCast, ← hsizes]
          rfl

/-- A number stands for what its pattern does, also where the pattern itself is not kept. -/
theorem unpack_pack (b : Pattern) :
    UnpackedFloat.unpack Float.Model.Format.binary64
      (UnpackedFloat.pack _ (UnpackedFloat.unpack _ b)) = UnpackedFloat.unpack _ b := by
  have hu := unpacks b
  by_cases hsize : sizeOf b ≤ 2047 * 2 ^ 52
  · rw [pack_of_unpacks hu hsize]
  · generalize UnpackedFloat.unpack _ b = u at hu
    cases hu with
    | notANumber h => rfl
    | zero h | infinity h | finite pos h => omega

section

variable (x y : Number)

def pattern : Pattern := x.bits.toBitVec

/-- The size of a number with its sign. -/
def signedSize : Int := (signOf (pattern x)).apply (sizeOf (pattern x))

theorem unpacks_pattern :
    Unpacks (signOf (pattern x)) (sizeOf (pattern x)) x.toFloat.toModel.unpack := by
  rw [show x.toFloat.toModel.unpack = _ from unpack_pack (pattern x)]
  exact unpacks (pattern x)

theorem isNaN_iff : x.isNaN = true ↔ 2047 * 2 ^ 52 < sizeOf (pattern x) := by
  have hx := unpacks_pattern x
  show x.toFloat.toModel.unpack.isNaN = true ↔ _
  generalize x.toFloat.toModel.unpack = u at hx
  cases hx with
  | notANumber h => exact ⟨fun _ => h, fun _ => rfl⟩
  | zero h | infinity h | finite pos h =>
    refine ⟨fun hnan => ?_, fun hsize => ?_⟩
    · cases hnan
    · omega

theorem isNaN_eq_false_iff : x.isNaN = false ↔ sizeOf (pattern x) ≤ 2047 * 2 ^ 52 := by
  rw [← Bool.not_eq_true, isNaN_iff]
  omega

/-- Of a number that is taken for what it stands for, the bits are lost only if it is NaN. -/
theorem ofFloat_toFloat (h : x.isNaN = false) : ofFloat x.toFloat = x :=
  congrArg (fun b => Number.mk ⟨b⟩)
    (pack_of_unpacks (unpacks (pattern x)) ((isNaN_eq_false_iff x).mp h))

theorem signedSize_bounds (h : x.isNaN = false) :
    -(2047 * 2 ^ 52) ≤ signedSize x ∧ signedSize x ≤ 2047 * 2 ^ 52 := by
  rw [isNaN_eq_false_iff] at h
  rw [signedSize]
  cases signOf (pattern x) <;> simp only [Sign.apply] <;> omega

/-- NaN is not compared, and other numbers are by their sizes. -/
theorem compare_eq : x.toFloat.toModel.compare y.toFloat.toModel =
    if x.isNaN || y.isNaN then none else some (compare (signedSize x) (signedSize y)) := by
  have hx := unpacks_pattern x
  have hy := unpacks_pattern y
  have hxNaN := isNaN_eq_false_iff x
  have hyNaN := isNaN_eq_false_iff y
  show x.toFloat.toModel.unpack.compare y.toFloat.toModel.unpack = _
  by_cases hm : sizeOf (pattern x) ≤ 2047 * 2 ^ 52
  case neg =>
    rw [(isNaN_iff x).mpr (by omega)]
    generalize x.toFloat.toModel.unpack = u at hx
    cases hx with
    | notANumber h => rfl
    | zero h | infinity h | finite pos h => omega
  by_cases hn : sizeOf (pattern y) ≤ 2047 * 2 ^ 52
  case neg =>
    rw [(isNaN_iff y).mpr (by omega), Bool.or_true]
    generalize y.toFloat.toModel.unpack = v at hy
    cases hy with
    | notANumber h => cases x.toFloat.toModel.unpack <;> rfl
    | zero h | infinity h | finite pos h => omega
  rw [hxNaN.mpr hm, hyNaN.mpr hn]
  exact compare_of_unpacks hx hy hm hn

theorem beq_iff : (x == y) = true ↔
    x.isNaN = false ∧ y.isNaN = false ∧ signedSize x = signedSize y := by
  show (x.toFloat.toModel.compare y.toFloat.toModel == some .eq) = true ↔ _
  rw [compare_eq]
  cases x.isNaN <;> cases y.isNaN <;> simp

theorem lt_iff : x < y ↔ x.isNaN = false ∧ y.isNaN = false ∧ signedSize x < signedSize y := by
  show decide ((x.toFloat.toModel.compare y.toFloat.toModel == some .lt) = true) = true ↔ _
  rw [decide_eq_true_iff, compare_eq]
  cases x.isNaN <;> cases y.isNaN <;> simp [Std.compare_eq_lt]

/-! ### The total order -/

/-- The integer by which patterns are ordered. -/
def keyOf (b : Pattern) : Int :=
  if b.toNat < 2 ^ 63 then (b.toNat : Int) else 2 ^ 63 - 1 - b.toNat

/-- No two patterns are taken for one, not even if both are patterns of NaN. -/
theorem keyOf_injective {b c : Pattern} (h : keyOf b = keyOf c) : b = c := by
  have hb := toNat_lt b
  have hc := toNat_lt c
  rw [keyOf, keyOf] at h
  refine BitVec.eq_of_toNat_eq ?_
  split at h <;> split at h <;> omega

theorem orderKey_eq : orderKey x = keyOf (pattern x) := rfl

theorem signBit_iff : signBit x = true ↔ 2 ^ 63 ≤ (pattern x).toNat := by
  have hx := toNat_lt (pattern x)
  have hshift : (x.bits >>> 63).toNat = (pattern x).toNat / 2 ^ 63 := by
    rw [UInt64.toNat_shiftRight]
    exact Nat.shiftRight_eq_div_pow _ 63
  rw [signBit, bne_iff_ne, ne_eq, ← UInt64.toNat_inj, hshift]
  show ¬ _ = 0 ↔ _
  omega

theorem orderKey_injective {x y : Number} (h : orderKey x = orderKey y) : x = y :=
  congrArg (fun b => Number.mk ⟨b⟩) (keyOf_injective h)

/-- Patterns are ordered by the size with its sign, the negative ones moved down by one so that −0
is below 0. -/
theorem orderKey_cases :
    (signBit x = false ∧ 0 ≤ signedSize x ∧ orderKey x = signedSize x) ∨
      (signBit x = true ∧ signedSize x ≤ 0 ∧ orderKey x = signedSize x - 1) := by
  have hx := toNat_lt (pattern x)
  have hsign := signBit_iff x
  rw [orderKey_eq, keyOf, signedSize, signOf, sizeOf]
  by_cases h : (pattern x).toNat < 2 ^ 63
  · rw [if_pos h, if_pos h]
    refine .inl ⟨by rw [← Bool.not_eq_true, hsign]; omega, ?_⟩
    show 0 ≤ (((pattern x).toNat % 2 ^ 63 : Nat) : Int) ∧
      _ = (((pattern x).toNat % 2 ^ 63 : Nat) : Int)
    omega
  · rw [if_neg h, if_neg h]
    refine .inr ⟨by rw [hsign]; omega, ?_⟩
    show -(((pattern x).toNat % 2 ^ 63 : Nat) : Int) ≤ 0 ∧
      _ = -(((pattern x).toNat % 2 ^ 63 : Nat) : Int) - 1
    omega

/-- Zeros apart, numbers that compare as equal are the same. -/
theorem eq_of_beq_of_ne_zero {x y : Number} (h : (x == y) = true) (hzero : (y == 0) = false) :
    x = y := by
  obtain ⟨-, hy, hsize⟩ := (beq_iff x y).mp h
  have hne : signedSize y ≠ 0 := by
    intro heq
    rw [(beq_iff y 0).mpr ⟨hy, rfl, heq⟩] at hzero
    cases hzero
  have hless := orderKey_cases x
  have hmore := orderKey_cases y
  exact orderKey_injective (by omega)

instance : Std.TransCmp compareTotal where
  eq_swap := Std.OrientedOrd.eq_swap
  isLE_trans h k := Std.TransOrd.isLE_trans h k

instance : Std.LawfulEqCmp compareTotal where
  compare_self := Std.ReflOrd.compare_self
  eq_of_compare h := orderKey_injective (Std.LawfulEqOrd.eq_of_compare h)

theorem fractionField_eq : fractionField x = sizeOf (pattern x) % 2 ^ 52 := by
  have hfield : fractionField x = (pattern x).toNat % 2 ^ 52 := by
    rw [fractionField, UInt64.toNat_and]
    exact Nat.and_two_pow_sub_one_eq_mod _ 52
  rw [hfield, sizeOf]
  omega

/-- NaN is beyond the infinity of its sign, and as far as its payload says. -/
theorem orderKey_of_isNaN (h : x.isNaN = true) : 0 < fractionField x ∧
    orderKey x = if signBit x then -(2047 * 2 ^ 52) - 1 - (fractionField x : Int)
      else 2047 * 2 ^ 52 + (fractionField x : Int) := by
  have hx := toNat_lt (pattern x)
  have hsign := signBit_iff x
  have hfraction := fractionField_eq x
  rw [isNaN_iff] at h
  rw [sizeOf] at h hfraction
  rw [orderKey_eq, keyOf]
  by_cases hs : signBit x = true
  · have := hsign.mp hs
    rw [if_pos hs, if_neg (by omega)]
    omega
  · have := mt hsign.mpr hs
    rw [if_neg hs, if_pos (by omega)]
    omega

/-- The NaNs below every other number. -/
def isNaNBelow : Bool := x.isNaN && signBit x

/-- The NaNs above every other number. -/
def isNaNAbove : Bool := x.isNaN && !signBit x

/-- The total order is numeric comparison, with −0 put below 0 and NaNs put below and above
everything, by their signs, and further out the larger their payloads are. -/
theorem compareTotal_eq_lt_iff : compareTotal x y = .lt ↔
    x < y ∨ (x == y ∧ signBit x = true ∧ signBit y = false) ∨
      (isNaNBelow x = true ∧ isNaNBelow y = false) ∨
      (isNaNAbove x = false ∧ isNaNAbove y = true) ∨
      (isNaNBelow x = true ∧ isNaNBelow y = true ∧ fractionField y < fractionField x) ∨
      (isNaNAbove x = true ∧ isNaNAbove y = true ∧ fractionField x < fractionField y) := by
  rw [compareTotal, Std.compare_eq_lt, lt_iff, beq_iff, isNaNBelow, isNaNBelow, isNaNAbove,
    isNaNAbove]
  cases hx : x.isNaN with
  | true =>
    have hkey := orderKey_of_isNaN x hx
    cases hy : y.isNaN with
    | true =>
      have hkey' := orderKey_of_isNaN y hy
      cases hs : signBit x <;> cases ht : signBit y <;> simp [hs, ht] at * <;> omega
    | false =>
      have hbounds := signedSize_bounds y hy
      have hmore := orderKey_cases y
      cases hs : signBit x <;> simp [hs] at * <;> omega
  | false =>
    have hless := orderKey_cases x
    cases hy : y.isNaN with
    | true =>
      have hbounds := signedSize_bounds x hx
      have hkey := orderKey_of_isNaN y hy
      cases ht : signBit y <;> simp [ht] at * <;> omega
    | false =>
      have hmore := orderKey_cases y
      cases hs : signBit x <;> cases ht : signBit y <;> simp [hs, ht] at * <;> omega

end

end Premise.Number
