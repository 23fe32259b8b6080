import Mathlib

/-! Integers in binary64. An integer of less than 54 bits is a double, with its first bit in front, and the
operations of the model that make one of it round nothing away. -/
namespace LuaTT.ExactDouble
open Float.Model UnpackedFloat
set_option autoImplicit false

/-! ## Rounding -/

theorem shift_exact (c k : ℕ) :
    (⟨c * 2 ^ k, false, false⟩ : ExtendedMantissa) >>> k = ⟨c, false, false⟩ := by
  induction k generalizing c with
  | zero => simp [HShiftRight.hShiftRight, Nat.repeat]
  | succ k ih =>
    have hstep : (⟨c * 2 ^ (k + 1), false, false⟩ : ExtendedMantissa) >>> (k + 1) =
        ((⟨c * 2 ^ (k + 1), false, false⟩ : ExtendedMantissa) >>> k).shiftRightOne := rfl
    have hpow : c * 2 ^ (k + 1) = c * 2 * 2 ^ k := by ring
    rw [hstep, hpow, ih]
    simp [ExtendedMantissa.shiftRightOne]

/-- A mantissa of 53 bits. -/
def Full (c : ℕ) : Prop := 2 ^ 52 ≤ c ∧ c < 2 ^ 53

theorem Full.pos {c : ℕ} (h : Full c) : 0 < c := lt_of_lt_of_le (by decide) h.1

theorem Full.log2 {c : ℕ} (h : Full c) (k : ℕ) : (c * 2 ^ k).log2 = 52 + k := by
  have hpos := h.pos
  have hne : c * 2 ^ k ≠ 0 := (Nat.mul_pos hpos (Nat.two_pow_pos k)).ne'
  apply (Nat.log2_eq_iff hne).mpr
  constructor
  · rw [Nat.pow_add]
    exact Nat.mul_le_mul_right _ h.1
  · have hsucc : 52 + k + 1 = 53 + k := by omega
    rw [hsucc, Nat.pow_add]
    exact (Nat.mul_lt_mul_right (Nat.two_pow_pos k)).mpr h.2

theorem target_full {c : ℕ} (h : Full c) {e : ℤ} (he : -1074 ≤ e) (k : ℕ) :
    Format.binary64.targetExponent (totalExponent (c * 2 ^ k) (e - k)) = e := by
  simp only [Format.targetExponent, totalExponent, h.log2, Format.mantissaBits, Format.minExponent]
  omega

theorem shiftToTarget_full {c : ℕ} (h : Full c) {e : ℤ} (he : -1074 ≤ e) (k : ℕ) :
    shiftToTargetExponent Format.binary64 (c * 2 ^ k) (e - k) .exact = (⟨c, false, false⟩, e) := by
  have hshift : (e - (e - k)).toNat = k := by omega
  have hsum : e - k + k = e := by omega
  simp only [shiftToTargetExponent, target_full h he, shiftToExponent, hshift, hsum]
  exact congrArg (·, e) (shift_exact c k)

/-- Nothing is lost of a number whose 53 first bits are all there is. -/
theorem round_full {c : ℕ} (h : Full c) {e : ℤ} (he : -1074 ≤ e) (k : ℕ) (s : Sign) :
    roundWithAccuracy Format.binary64 s (c * 2 ^ k) (e - k) .exact = .finite s c e h.pos := by
  have hagain := shiftToTarget_full h he 0
  rw [Nat.pow_zero, Nat.mul_one, Nat.cast_zero, sub_zero] at hagain
  have hrounded : ExtendedMantissa.roundedMantissa ⟨c, false, false⟩ = c := rfl
  simp only [roundWithAccuracy, shiftToTarget_full h he, hrounded, hagain, dif_neg h.pos.ne']

/-! ## Packing -/

theorem implicit_bit {c : ℕ} (h : Full c) : (1#1 ++ BitVec.ofNat 52 c).toNat = c := by
  have hlow : (BitVec.ofNat 52 c).toNat = c - 2 ^ 52 := by
    rw [BitVec.toNat_ofNat]
    have := h.1
    have := h.2
    omega
  rw [BitVec.toNat_append, hlow, ← Nat.shiftLeft_add_eq_or_of_lt (by have := h.2; omega)]
  have := h.1
  show 1 <<< 52 + (c - 2 ^ 52) = c
  omega

section Field
variable {e : ℤ} (he : -1074 ≤ e ∧ e ≤ 971)
include he

theorem exponentField_toNat : (BitVec.ofNat 11 (e + 1075).toNat).toNat = (e + 1075).toNat := by
  rw [BitVec.toNat_ofNat]
  omega

/-- Neither the exponent of infinity nor that of a subnormal number. -/
theorem exponentField_ne {b : BitVec 11} (hb : b.toNat = 2047 ∨ b.toNat = 0) :
    BitVec.ofNat 11 (e + 1075).toNat ≠ b := by
  rintro rfl
  rw [exponentField_toNat he] at hb
  omega

theorem pack_full {c : ℕ} (h : Full c) (s : Sign) :
    UnpackedFloat.pack Format.binary64 (.finite s c e h.pos) =
      packComponents Format.binary64 s (BitVec.ofNat _ (e + 1075).toNat) (BitVec.ofNat _ c) := by
  have hlog : c.log2 + 1 = Format.binary64.mantissaBits := by
    have hfull := h.log2 0
    rw [Nat.pow_zero, Nat.mul_one] at hfull
    rw [hfull]
    rfl
  have hbias : (e + Format.binary64.exponentBias + Format.binary64.mantissaBitsWithoutImplicit).toNat =
      (e + 1075).toNat := by
    congr 1
    show e + (1023 : ℕ) + (52 : ℕ) = e + 1075
    omega
  have hfinite : ¬2 ^ Format.binary64.exponentBits ≤ (e + 1075).toNat + 1 := by
    show ¬2 ^ 11 ≤ (e + 1075).toNat + 1
    omega
  simp only [UnpackedFloat.pack, hbias, if_neg hfinite, if_pos hlog]

theorem unpack_pack {c : ℕ} (h : Full c) (s : Sign) :
    (Float.Model.pack (.finite s c e h.pos)).unpack = .finite s c e h.pos := by
  show UnpackedFloat.unpack Format.binary64 (UnpackedFloat.pack Format.binary64 (.finite s c e h.pos)) = _
  have hinfinity : BitVec.ofNat 11 (e + 1075).toNat ≠ -1#11 := exponentField_ne he (.inl rfl)
  have hsubnormal : BitVec.ofNat 11 (e + 1075).toNat ≠ 0#11 := exponentField_ne he (.inr rfl)
  have hsign : Sign.ofBitVec s.toBitVec = s := by cases s <;> rfl
  have hback : ((e + 1075).toNat : ℤ) - (Format.binary64.exponentBias +
      Format.binary64.mantissaBitsWithoutImplicit) = e := by
    show ((e + 1075).toNat : ℤ) - ((1023 : ℕ) + (52 : ℕ)) = e
    omega
  rw [pack_full he h, UnpackedFloat.unpack]
  simp only [unpackMantissa_packComponents, unpackExponent_packComponents, unpackSign_packComponents, hsign]
  rw [if_neg hinfinity, if_neg hsubnormal]
  simp only [exponentField_toNat he, hback, implicit_bit h]

end Field

/-! ## Integers -/

def mantissa (n : ℕ) : ℕ := n * 2 ^ (52 - n.log2)

def exponent (n : ℕ) : ℤ := n.log2 - 52

theorem mantissa_full {n : ℕ} (hpos : 0 < n) (hn : n < 2 ^ 53) : Full (mantissa n) := by
  have hlog : n.log2 < 53 := (Nat.log2_lt hpos.ne').mpr hn
  have hlow := Nat.log2_self_le hpos.ne'
  have hhigh : n < 2 ^ (n.log2 + 1) := Nat.lt_log2_self
  have hsplit : 2 ^ n.log2 * 2 ^ (52 - n.log2) = 2 ^ 52 := by
    rw [← Nat.pow_add]
    congr 1
    omega
  constructor
  · rw [← hsplit]
    exact Nat.mul_le_mul_right _ hlow
  · have hdouble : 2 ^ 53 = 2 ^ (n.log2 + 1) * 2 ^ (52 - n.log2) := by
      rw [← Nat.pow_add]
      congr 1
      omega
    rw [hdouble]
    exact (Nat.mul_lt_mul_right (Nat.two_pow_pos _)).mpr hhigh

theorem exponent_range {n : ℕ} (hpos : 0 < n) (hn : n < 2 ^ 53) : -1074 ≤ exponent n ∧ exponent n ≤ 971 := by
  have hlog : n.log2 < 53 := (Nat.log2_lt hpos.ne').mpr hn
  simp only [exponent]
  omega

theorem ofUInt64_full {n : ℕ} (hpos : 0 < n) (hn : n < 2 ^ 53) :
    UnpackedFloat.ofUInt64 Format.binary64 n.toUInt64 =
      .finite .positive (mantissa n) (exponent n) (mantissa_full hpos hn).pos := by
  have hnat : n.toUInt64.toNat = n := by
    show n % 2 ^ 64 = n
    omega
  have hlog : n.log2 < 53 := (Nat.log2_lt hpos.ne').mpr hn
  have hgt : compare (n : ℤ) 0 = .gt := by
    rw [compare_gt_iff_gt]
    omega
  have htarget : Format.binary64.targetExponent (totalExponent n 0) = exponent n := by
    simp only [Format.targetExponent, totalExponent, Format.mantissaBits, Format.minExponent, exponent]
    omega
  have hshift : (0 - exponent n).toNat = 52 - n.log2 := by
    simp only [exponent]
    omega
  have hexp : (0 : ℤ) - ((52 - n.log2 : ℕ) : ℤ) = exponent n := by
    simp only [exponent]
    omega
  have hround := round_full (mantissa_full hpos hn) (exponent_range hpos hn).1 0 .positive
  rw [Nat.pow_zero, Nat.mul_one, Nat.cast_zero, sub_zero] at hround
  simp only [UnpackedFloat.ofUInt64, UnpackedFloat.ofNat, UnpackedFloat.ofInt, UnpackedFloat.normalize, hnat, hgt,
    UnpackedFloat.round, Int.toNat_natCast, htarget, decreaseExponent, hshift, hexp, Nat.shiftLeft_eq]
  exact hround

theorem unpack_one : (Float.ofBits 0x3FF0000000000000).toModel.unpack =
    .finite .positive (2 ^ 52) (-52) (by decide) := by
  rfl

/-- An integer of at most 53 bits is exactly a double. -/
theorem unpack_ofNat {n : ℕ} (hpos : 0 < n) (hn : n < 2 ^ 53) :
    (Float.ofNat n).toModel.unpack =
      .finite .positive (mantissa n) (exponent n) (mantissa_full hpos hn).pos := by
  have hfull := mantissa_full hpos hn
  have hrange := exponent_range hpos hn
  have hfast : Float.ofNat n = n.toUInt64.toFloat * Float.ofBits 0x3FF0000000000000 := by
    show Float.ofScientific n false 0 = _
    rw [Float.ofScientific, dif_pos ⟨hn, by decide⟩]
    rfl
  have hconv : n.toUInt64.toFloat.toModel.unpack =
      .finite .positive (mantissa n) (exponent n) hfull.pos := by
    show (Float.Model.pack (UnpackedFloat.ofUInt64 Format.binary64 n.toUInt64)).unpack = _
    rw [ofUInt64_full hpos hn, unpack_pack hrange hfull]
  have hexp : exponent n + -52 = exponent n - (52 : ℕ) := by omega
  rw [hfast]
  show (Float.Model.pack (UnpackedFloat.mul Format.binary64 n.toUInt64.toFloat.toModel.unpack
    (Float.ofBits 0x3FF0000000000000).toModel.unpack)).unpack = _
  rw [hconv, unpack_one, UnpackedFloat.mul, hexp, round_full hfull hrange.1]
  exact unpack_pack hrange hfull .positive

theorem unpack_neg {n : ℕ} (hpos : 0 < n) (hn : n < 2 ^ 53) :
    (-Float.ofNat n).toModel.unpack =
      .finite .negative (mantissa n) (exponent n) (mantissa_full hpos hn).pos := by
  have hfull := mantissa_full hpos hn
  have hrange := exponent_range hpos hn
  show (Float.Model.pack (Float.ofNat n).toModel.unpack.neg).unpack = _
  rw [unpack_ofNat hpos hn]
  exact unpack_pack hrange hfull .negative

/-! ## Subtraction and order -/

theorem log2_mul_pow {n : ℕ} (hpos : 0 < n) (t : ℕ) : (n * 2 ^ t).log2 = n.log2 + t := by
  have hne : n * 2 ^ t ≠ 0 := (Nat.mul_pos hpos (Nat.two_pow_pos t)).ne'
  have hsucc : n.log2 + t + 1 = n.log2 + 1 + t := by omega
  rw [Nat.log2_eq_iff hne, hsucc, Nat.pow_add, Nat.pow_add]
  exact ⟨Nat.mul_le_mul_right _ (Nat.log2_self_le hpos.ne'),
    (Nat.mul_lt_mul_right (Nat.two_pow_pos t)).mpr Nat.lt_log2_self⟩

theorem log2_mono {k n : ℕ} (hkpos : 0 < k) (h : k ≤ n) : k.log2 ≤ n.log2 :=
  (Nat.le_log2 (by omega)).mpr ((Nat.log2_self_le hkpos.ne').trans h)

/-- An integer is rounded to itself from any finer exponent. -/
theorem round_nat {n : ℕ} (hpos : 0 < n) (hn : n < 2 ^ 53) (t : ℕ) :
    UnpackedFloat.round Format.binary64 .positive (n * 2 ^ t) (-t) =
      .finite .positive (mantissa n) (exponent n) (mantissa_full hpos hn).pos := by
  have hfull := mantissa_full hpos hn
  have hrange := exponent_range hpos hn
  have hlog : n.log2 < 53 := (Nat.log2_lt hpos.ne').mpr hn
  have htotal : (n * 2 ^ t).log2 = n.log2 + t := log2_mul_pow hpos t
  have htarget : Format.binary64.targetExponent (totalExponent (n * 2 ^ t) (-t)) = exponent n := by
    simp only [Format.targetExponent, totalExponent, Format.mantissaBits, Format.minExponent, exponent, htotal]
    omega
  simp only [UnpackedFloat.round, htarget, decreaseExponent, Nat.shiftLeft_eq]
  by_cases hcoarse : 52 - n.log2 ≤ t
  · -- the first bits are already in place
    obtain ⟨j, rfl⟩ : ∃ j, t = 52 - n.log2 + j := ⟨t - (52 - n.log2), by omega⟩
    have hshift : (-((52 - n.log2 + j : ℕ) : ℤ) - exponent n).toNat = 0 := by
      simp only [exponent]
      omega
    have hexp : -((52 - n.log2 + j : ℕ) : ℤ) - (0 : ℕ) = exponent n - j := by
      simp only [exponent]
      omega
    rw [hshift, hexp, Nat.pow_zero, Nat.mul_one, Nat.pow_add, ← Nat.mul_assoc]
    exact round_full hfull hrange.1 j .positive
  · have hshift : (-(t : ℤ) - exponent n).toNat = 52 - n.log2 - t := by
      simp only [exponent]
      omega
    have hexp : -(t : ℤ) - (52 - n.log2 - t : ℕ) = exponent n - (0 : ℕ) := by
      simp only [exponent]
      omega
    have hmantissa : n * 2 ^ t * 2 ^ (52 - n.log2 - t) = mantissa n * 2 ^ 0 := by
      rw [Nat.mul_assoc, ← Nat.pow_add, Nat.pow_zero, Nat.mul_one, mantissa]
      congr 2
      omega
    rw [hshift, hexp, hmantissa]
    exact round_full hfull hrange.1 0 .positive

/-- A double that is the integer `n`. -/
def IsNat (x : Float) (n : ℕ) : Prop := x.toModel.unpack = (Float.ofNat n).toModel.unpack

theorem unpack_zero : (Float.ofNat 0).toModel.unpack = .zero .positive := by
  rfl

section Integer
variable {x : Float} {n k : ℕ}

theorem IsNat.sub (h : IsNat x n) (hk : k ≤ n) (hn : n < 2 ^ 53) : IsNat (x - Float.ofNat k) (n - k) := by
  unfold IsNat at h ⊢
  show (Float.Model.pack (UnpackedFloat.sub Format.binary64 x.toModel.unpack
    (Float.ofNat k).toModel.unpack)).unpack = _
  rw [h]
  obtain rfl | hkpos := Nat.eq_zero_or_pos k
  · obtain rfl | hpos := Nat.eq_zero_or_pos n
    · rfl
    · rw [unpack_zero, unpack_ofNat hpos hn, Nat.sub_zero, unpack_ofNat hpos hn]
      exact unpack_pack (exponent_range hpos hn) (mantissa_full hpos hn) .positive
  · have hpos : 0 < n := by omega
    have hk53 : k < 2 ^ 53 := by omega
    have hmono : k.log2 ≤ n.log2 := log2_mono hkpos hk
    have hnlog : n.log2 < 53 := (Nat.log2_lt hpos.ne').mpr hn
    have hmin : min (exponent n) (exponent k) = -((52 - k.log2 : ℕ) : ℤ) := by
      simp only [exponent]
      omega
    have hshiftn : (exponent n - -((52 - k.log2 : ℕ) : ℤ)).toNat = n.log2 - k.log2 := by
      simp only [exponent]
      omega
    have hshiftk : (exponent k - -((52 - k.log2 : ℕ) : ℤ)).toNat = 0 := by
      simp only [exponent]
      omega
    have halign : mantissa n * 2 ^ (n.log2 - k.log2) = n * 2 ^ (52 - k.log2) := by
      rw [mantissa, Nat.mul_assoc, ← Nat.pow_add]
      congr 2
      omega
    have hdiff : Sign.positive.apply (n * 2 ^ (52 - k.log2) : ℕ) - Sign.positive.apply (mantissa k * 2 ^ 0 : ℕ) =
        (((n - k) * 2 ^ (52 - k.log2) : ℕ) : ℤ) := by
      show ((n * 2 ^ (52 - k.log2) : ℕ) : ℤ) - ((k * 2 ^ (52 - k.log2) * 2 ^ 0 : ℕ) : ℤ) = _
      rw [Nat.pow_zero, Nat.mul_one, Nat.sub_mul, Nat.cast_sub (Nat.mul_le_mul_right _ hk)]
    simp only [unpack_ofNat hpos hn, unpack_ofNat hkpos hk53, UnpackedFloat.sub, decreaseExponent, hmin, hshiftn,
      hshiftk, Nat.shiftLeft_eq, halign, hdiff]
    obtain hzero | hless := Nat.eq_zero_or_pos (n - k)
    · rw [hzero, Nat.zero_mul]
      rfl
    · have hrest : n - k < 2 ^ 53 := by omega
      have hgt : compare (((n - k) * 2 ^ (52 - k.log2) : ℕ) : ℤ) 0 = .gt := by
        rw [compare_gt_iff_gt]
        exact Int.natCast_pos.mpr (Nat.mul_pos hless (Nat.two_pow_pos _))
      simp only [UnpackedFloat.normalize, hgt, Int.toNat_natCast, round_nat hless hrest]
      rw [unpack_ofNat hless hrest]
      exact unpack_pack (exponent_range hless hrest) (mantissa_full hless hrest) .positive

/-- The order of two doubles is that of their first bits' places, and then that of their bits. -/
theorem compare_nat (hpos : 0 < n) (hkpos : 0 < k) (hn : n < 2 ^ 53) (hk : k < 2 ^ 53) :
    (Float.ofNat n).toModel.unpack.compare (Float.ofNat k).toModel.unpack = some (compare n k) := by
  have hlt (a b : ℕ) (ha : 0 < a) (hab : a < b) :
      (compare (exponent a) (exponent b)).then (compare (mantissa a) (mantissa b)) = .lt := by
    have hmono : a.log2 ≤ b.log2 := log2_mono ha hab.le
    obtain hless | heq := hmono.lt_or_eq
    · have hexp : compare (exponent a) (exponent b) = .lt := by
        rw [compare_lt_iff_lt]
        simp only [exponent]
        omega
      rw [hexp]
      rfl
    · have hexp : compare (exponent a) (exponent b) = .eq := by
        rw [compare_eq_iff_eq]
        simp only [exponent, heq]
      have hmant : compare (mantissa a) (mantissa b) = .lt := by
        rw [compare_lt_iff_lt, mantissa, mantissa, heq]
        exact (Nat.mul_lt_mul_right (Nat.two_pow_pos _)).mpr hab
      rw [hexp, hmant]
      rfl
  rw [unpack_ofNat hpos hn, unpack_ofNat hkpos hk]
  show some _ = _
  obtain h | rfl | h := Nat.lt_trichotomy n k
  · rw [hlt n k hpos h, compare_lt_iff_lt.mpr h]
  · simp
  · have hswap : (compare (exponent n) (exponent k)).then (compare (mantissa n) (mantissa k)) =
        ((compare (exponent k) (exponent n)).then (compare (mantissa k) (mantissa n))).swap := by
      rw [Ordering.swap_then, ← Std.OrientedOrd.eq_swap, ← Std.OrientedOrd.eq_swap]
    rw [hswap, hlt k n hkpos h, compare_gt_iff_gt.mpr h]
    rfl

theorem IsNat.le_zero (h : IsNat x n) (hn : n < 2 ^ 53) : x ≤ Float.ofNat 0 ↔ n = 0 := by
  have hle : x ≤ Float.ofNat 0 ↔
      (x.toModel.unpack.compare (Float.ofNat 0).toModel.unpack).any (·.isLE) = true := decide_eq_true_iff
  rw [hle, h, unpack_zero]
  obtain rfl | hpos := Nat.eq_zero_or_pos n
  · simp [unpack_zero, UnpackedFloat.compare]
  · rw [unpack_ofNat hpos hn]
    simp [UnpackedFloat.compare, hpos.ne']

theorem IsNat.lt_iff (h : IsNat x n) (hkpos : 0 < k) (hk : k < 2 ^ 53) (hn : n < 2 ^ 53) :
    Float.ofNat k < x ↔ k < n := by
  have hlt : Float.ofNat k < x ↔
      ((Float.ofNat k).toModel.unpack.compare x.toModel.unpack == some .lt) = true := decide_eq_true_iff
  rw [hlt, h]
  obtain rfl | hpos := Nat.eq_zero_or_pos n
  · rw [unpack_zero, unpack_ofNat hkpos hk]
    simp [UnpackedFloat.compare]
  · rw [compare_nat hkpos hpos hk hn, beq_iff_eq, Option.some.injEq]
    exact compare_lt_iff_lt

end Integer
end LuaTT.ExactDouble
