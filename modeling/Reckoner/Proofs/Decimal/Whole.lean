import Reckoner.Fact.Basic
import Reckoner.Proofs.Decimal.Double
import Reckoner.Proofs.Json.Document

/-!
# Whole numbers as doubles

A whole number below `2 ^ 53` is a double as it stands: shifted until it has all its
bits, it is the significand.  So a double that is written as an integer is read back
as itself, up to the sign of zero.
-/

namespace Reckoner
namespace Decimal

open Float.Model UnpackedFloat

/-!
# Rounding what needs none
-/

theorem log2_mul_two_pow {m : Nat} (h : 0 < m) (j : Nat) : (m * 2 ^ j).log2 = m.log2 + j := by
  induction j with
  | zero =>
      rw [Nat.pow_zero, Nat.mul_one]
      rfl
  | succ j ih =>
      have hpos : m * 2 ^ j ≠ 0 := Nat.ne_of_gt (Nat.mul_pos h (Nat.two_pow_pos j))
      have hdouble : m * 2 ^ (j + 1) = 2 * (m * 2 ^ j) := by ring
      rw [hdouble, Nat.log2_two_mul hpos, ih, Nat.add_assoc]

theorem targetExponent_total (m : Nat) (q : Int) :
    Format.binary64.targetExponent (totalExponent m q) =
      max (m.log2 + q - 52) Interval.minExponent := by
  have hbits : (Format.binary64.mantissaBits : Int) = 53 := rfl
  have hleast : Format.binary64.minExponent = Interval.minExponent := rfl
  unfold Format.targetExponent totalExponent
  rw [hbits, hleast]
  congr 1
  omega

theorem shiftRight_succ (em : ExtendedMantissa) (k : Nat) :
    em >>> (k + 1) = (em >>> k).shiftRightOne := rfl

theorem shiftRight_exact (m j : Nat) :
    (⟨m * 2 ^ j, false, false⟩ : ExtendedMantissa) >>> j = ⟨m, false, false⟩ := by
  induction j generalizing m with
  | zero =>
      rw [Nat.pow_zero, Nat.mul_one]
      rfl
  | succ j ih =>
      have hdouble : m * 2 ^ (j + 1) = m * 2 * 2 ^ j := by ring
      rw [shiftRight_succ, hdouble, ih]
      simp [ExtendedMantissa.shiftRightOne]

section Full

variable {m : Nat} {q : Int}

theorem log2_of_full (hfull : 2 ^ 52 ≤ m) (hlt : m < 2 ^ 53) : m.log2 = 52 :=
  (Nat.log2_eq_iff (by omega)).mpr ⟨hfull, hlt⟩

theorem shiftToTargetExponent_exact (hfull : 2 ^ 52 ≤ m) (hlt : m < 2 ^ 53)
    (hleast : Interval.minExponent ≤ q) (j : Nat) :
    shiftToTargetExponent Format.binary64 (m * 2 ^ j) (q - j) .exact =
      (⟨m, false, false⟩, q) := by
  have hlog : (m * 2 ^ j).log2 = 52 + j := by
    rw [log2_mul_two_pow (by omega), log2_of_full hfull hlt]
  have htarget : Format.binary64.targetExponent (totalExponent (m * 2 ^ j) (q - j)) = q := by
    rw [targetExponent_total, hlog]
    omega
  have hshift : (q - (q - j)).toNat = j := by omega
  have hback : q - j + j = q := by omega
  -- the bits that are shifted out are zeros
  unfold shiftToTargetExponent shiftToExponent
  simp only [htarget, hshift, hback]
  rw [← shiftRight_exact m j]
  rfl

theorem roundWithAccuracy_exact (hfull : 2 ^ 52 ≤ m) (hlt : m < 2 ^ 53)
    (hleast : Interval.minExponent ≤ q) (sign : Sign) (j : Nat) :
    roundWithAccuracy Format.binary64 sign (m * 2 ^ j) (q - j) .exact =
      .finite sign m q (by omega) := by
  have hagain := shiftToTargetExponent_exact hfull hlt hleast 0
  rw [Nat.pow_zero, Nat.mul_one, Nat.cast_zero, Int.sub_zero] at hagain
  have hrounded : (⟨m, false, false⟩ : ExtendedMantissa).roundedMantissa = m := rfl
  unfold roundWithAccuracy
  simp only [shiftToTargetExponent_exact hfull hlt hleast j, hrounded, hagain]
  rw [dif_neg (by omega)]

theorem unpack_pack_full (hfull : 2 ^ 52 ≤ m) (hlt : m < 2 ^ 53)
    (hleast : Interval.minExponent ≤ q) (hmost : q ≤ 971) (sign : Sign) :
    (Float.Model.pack (.finite sign m q (by omega))).unpack = .finite sign m q (by omega) := by
  have hminimum : Interval.minExponent = -1074 := rfl
  have hbits : m.log2 + 1 = Format.binary64.mantissaBits := by
    rw [log2_of_full hfull hlt]
    rfl
  have hpack : UnpackedFloat.pack Format.binary64 (.finite sign m q (by omega)) =
      packComponents Format.binary64 sign (BitVec.ofNat 11 (q + 1075).toNat)
        (BitVec.ofNat 52 m) := by
    have hbias : q + (Format.binary64.exponentBias : Int) + (52 : Nat) = q + 1075 := by
      show q + 1023 + 52 = q + 1075
      omega
    unfold UnpackedFloat.pack
    simp only [hbias]
    rw [if_neg (by omega), if_pos hbits]
  have hexponent : (BitVec.ofNat 11 (q + 1075).toNat).toNat = (q + 1075).toNat := by
    rw [BitVec.toNat_ofNat]
    omega
  have hones : BitVec.ofNat 11 (q + 1075).toNat ≠ -1#11 := by
    intro heq
    rw [heq] at hexponent
    change 2047 = (q + 1075).toNat at hexponent
    omega
  have hzeros : BitVec.ofNat 11 (q + 1075).toNat ≠ 0#11 := by
    intro heq
    rw [heq] at hexponent
    change 0 = (q + 1075).toNat at hexponent
    omega
  show UnpackedFloat.unpack Format.binary64
    (UnpackedFloat.pack Format.binary64 (.finite sign m q (by omega))) = _
  rw [hpack]
  unfold UnpackedFloat.unpack
  simp only [unpackExponent_packComponents, unpackMantissa_packComponents,
    unpackSign_packComponents, Sign.ofBitVec_toBitVec]
  rw [if_neg hones, if_neg hzeros]
  congr 1
  · rw [toNat_significand, BitVec.toNat_ofNat]
    omega
  · rw [hexponent]
    show ((q + 1075).toNat : Int) - 1075 = q
    omega

end Full

/-!
# Small natural numbers
-/

theorem exists_full {n : Nat} (hpos : 0 < n) (hlt : n < 2 ^ 53) :
    ∃ j ≤ 52, 2 ^ 52 ≤ n * 2 ^ j ∧ n * 2 ^ j < 2 ^ 53 := by
  have hlog : n.log2 < 53 := (Nat.log2_lt (by omega)).mpr hlt
  refine ⟨52 - n.log2, by omega, ?_⟩
  apply (Nat.log2_eq_iff _).mp
  · rw [log2_mul_two_pow hpos]
    omega
  · exact Nat.ne_of_gt (Nat.mul_pos hpos (Nat.two_pow_pos _))

theorem round_full {n j : Nat} (hfull : 2 ^ 52 ≤ n * 2 ^ j) (hlt : n * 2 ^ j < 2 ^ 53)
    (hj : j ≤ 52) (sign : Sign) :
    UnpackedFloat.round Format.binary64 sign n 0 = .finite sign (n * 2 ^ j) (-j) (by omega) := by
  have hminimum : Interval.minExponent = -1074 := rfl
  have hpos : 0 < n := by
    rcases Nat.eq_zero_or_pos n with rfl | hpos
    · omega
    · exact hpos
  have hlog : n.log2 + j = 52 := by
    rw [← log2_mul_two_pow hpos]
    exact log2_of_full hfull hlt
  have htarget : Format.binary64.targetExponent (totalExponent n 0) = -j := by
    rw [targetExponent_total]
    omega
  have hdecrease : decreaseExponent n 0 (-j) = (n * 2 ^ j * 2 ^ 0, -(j : Int) - (0 : Nat)) := by
    have hshift : (0 - -(j : Int)).toNat = j := by omega
    show (n <<< (0 - -(j : Int)).toNat, (0 : Int) - ((0 - -(j : Int)).toNat : Nat)) = _
    rw [hshift, Nat.shiftLeft_eq, Nat.pow_zero, Nat.mul_one, Int.zero_sub, Nat.cast_zero,
      Int.sub_zero]
  unfold UnpackedFloat.round
  simp only [htarget, hdecrease]
  exact roundWithAccuracy_exact hfull hlt (by omega) sign 0

theorem unpack_ofNat {n j : Nat} (hfull : 2 ^ 52 ≤ n * 2 ^ j) (hlt : n * 2 ^ j < 2 ^ 53)
    (hj : j ≤ 52) :
    (Float.ofNat n).toModel.unpack = .finite .positive (n * 2 ^ j) (-j) (by omega) := by
  have hsmall : n < 2 ^ 53 := Nat.lt_of_le_of_lt (Nat.le_mul_of_pos_right n (Nat.two_pow_pos j)) hlt
  have hpos : 0 < n := by
    rcases Nat.eq_zero_or_pos n with rfl | hpos
    · omega
    · exact hpos
  have hminimum : Interval.minExponent = -1074 := rfl
  have hexact : n.toUInt64.toNat = n := by
    show n % 2 ^ 64 = n
    omega
  have hround : UnpackedFloat.ofUInt64 Format.binary64 n.toUInt64 =
      .finite .positive (n * 2 ^ j) (-j) (by omega) := by
    unfold UnpackedFloat.ofUInt64 UnpackedFloat.ofNat UnpackedFloat.ofInt UnpackedFloat.normalize
    rw [hexact, Int.compare_eq_gt.mpr (by omega)]
    exact round_full hfull hlt hj .positive
  have hword : n.toUInt64.toFloat.toModel.unpack =
      .finite .positive (n * 2 ^ j) (-j) (by omega) := by
    show (Float.Model.pack (UnpackedFloat.ofUInt64 Format.binary64 n.toUInt64)).unpack = _
    rw [hround]
    exact unpack_pack_full hfull hlt (by omega) (by omega) .positive
  have hone : (Float.ofBits 0x3FF0000000000000).toModel.unpack =
      .finite .positive (2 ^ 52) (-52) (by decide) := rfl
  -- a short decimal is read as a word times a power of ten, which is one here
  have hfast : Float.ofNat n = n.toUInt64.toFloat * Float.ofBits 0x3FF0000000000000 := by
    show Float.ofScientific n false 0 = _
    unfold Float.ofScientific
    rw [dif_pos ⟨hsmall, by omega⟩]
    rfl
  rw [hfast]
  show (Float.Model.pack (UnpackedFloat.mul Format.binary64 n.toUInt64.toFloat.toModel.unpack
    (Float.ofBits 0x3FF0000000000000).toModel.unpack)).unpack = _
  rw [hword, hone]
  show (Float.Model.pack (roundWithAccuracy Format.binary64 .positive (n * 2 ^ j * 2 ^ 52)
    (-j - (52 : Nat)) .exact)).unpack = _
  rw [roundWithAccuracy_exact hfull hlt (by omega) .positive 52]
  exact unpack_pack_full hfull hlt (by omega) (by omega) .positive

/-!
# Numbers that are not too large
-/

theorem isFinite_of_exponent {b : BitVec Format.binary64.numBits} (h : unpackExponent b ≠ -1#11) :
    (UnpackedFloat.unpack Format.binary64 b).isFinite = true := by
  unfold UnpackedFloat.unpack
  simp only
  rw [if_neg h]
  split
  · split <;> rfl
  · rfl

theorem exponent_le_of_bits {b : BitVec Format.binary64.numBits} {sign : Sign} {m : Nat}
    {q : Int} {hm : 0 < m} (h : UnpackedFloat.unpack Format.binary64 b = .finite sign m q hm) :
    q ≤ 971 := by
  have hexponent : (unpackExponent b).toNat < 2 ^ 11 := BitVec.isLt _
  unfold UnpackedFloat.unpack at h
  simp only at h
  split at h
  · split at h <;> cases h
  · rename_i hones
    have hlarge : (unpackExponent b).toNat ≠ 2047 := by
      intro heq
      exact hones (BitVec.eq_of_toNat_eq heq)
    split at h
    · rename_i hzeros
      split at h
      · cases h
      · injection h with _ _ hq
        rw [hzeros] at hq
        change (0 : Int) - 1075 + 1 = q at hq
        omega
    · injection h with _ _ hq
      change ((unpackExponent b).toNat : Int) - 1075 = q at hq
      omega

theorem isFinite_pack {m : Nat} {q : Int} (hm : 0 < m) (hmost : q ≤ 971) (sign : Sign) :
    (Float.Model.pack (.finite sign m q hm)).unpack.isFinite = true := by
  have hbias : (q + (Format.binary64.exponentBias : Int) + (52 : Nat)).toNat ≤ 2046 := by
    show (q + 1023 + 52).toNat ≤ 2046
    omega
  apply isFinite_of_exponent
  show unpackExponent (UnpackedFloat.pack Format.binary64 (.finite sign m q hm)) ≠ -1#11
  unfold UnpackedFloat.pack
  simp only
  rw [if_neg (by omega)]
  split
  · rw [unpackExponent_packComponents]
    intro heq
    have hnat := congrArg BitVec.toNat heq
    rw [BitVec.toNat_ofNat] at hnat
    change _ = 2047 at hnat
    omega
  · rw [unpackExponent_packComponents]
    decide

theorem mantissa_shiftRight_le (em : ExtendedMantissa) (k : Nat) :
    (em >>> k).mantissa ≤ em.mantissa := by
  induction k with
  | zero => exact Nat.le_refl _
  | succ k ih => exact Nat.le_trans (Nat.div_le_self _ 2) ih

theorem roundedMantissa_le (em : ExtendedMantissa) : em.roundedMantissa ≤ em.mantissa + 1 := by
  rcases em with ⟨m, round, sticky⟩
  cases round <;> cases sticky <;>
    simp [ExtendedMantissa.roundedMantissa, ExtendedMantissa.accuracy,
      Accuracy.roundToNearestEven]
  omega

theorem exponent_shiftToTargetExponent (m : Nat) (q : Int) :
    (shiftToTargetExponent Format.binary64 m q .exact).2 =
      max q (max (m.log2 + q - 52) Interval.minExponent) := by
  rw [← targetExponent_total]
  show q + ((Format.binary64.targetExponent (totalExponent m q) - q).toNat : Int) = _
  omega

theorem isFinite_roundWithAccuracy {m : Nat} {q : Int} (hm : m < 2 ^ 118) (hq : q ≤ 0)
    (sign : Sign) :
    (Float.Model.pack (roundWithAccuracy Format.binary64 sign m q .exact)).unpack.isFinite =
      true := by
  have hminimum : Interval.minExponent = -1074 := rfl
  have hlog (n k : Nat) (hn : n < 2 ^ (k + 1)) : n.log2 ≤ k := by
    by_cases hzero : n = 0
    · rw [hzero]
      exact Nat.zero_le k
    · exact Nat.le_of_lt_succ ((Nat.log2_lt hzero).mpr hn)
  have hfirst := exponent_shiftToTargetExponent m q
  have hmantissa : (shiftToTargetExponent Format.binary64 m q .exact).1.mantissa ≤ m :=
    mantissa_shiftRight_le _ _
  have hrounded := roundedMantissa_le (shiftToTargetExponent Format.binary64 m q .exact).1
  unfold roundWithAccuracy
  dsimp only
  generalize shiftToTargetExponent Format.binary64 m q .exact = first at hfirst hmantissa hrounded ⊢
  -- rounding up may fill the significand, and then it is shifted once more
  have hsecond := exponent_shiftToTargetExponent first.1.roundedMantissa first.2
  have hlogm := hlog m 117 hm
  have hlogr := hlog first.1.roundedMantissa 118 (by omega)
  split
  · cases sign <;> rfl
  · exact isFinite_pack _ (by omega) sign

/-- A number with more bits than a significand is multiplied by a power of ten, which is one. -/
theorem unpack_ofNat_large {n : Nat} (hlarge : ¬ n < 2 ^ 53) :
    (Float.ofNat n).toModel.unpack = (Float.Model.pack (roundWithAccuracy Format.binary64
      .positive (n <<< 53 * 1) (-53 + 0) .exact)).unpack := by
  have hslow : Float.ofNat n = Float.ofModel (Float.Model.ofScientific n 0) := by
    show Float.ofScientific n false 0 = _
    unfold Float.ofScientific
    rw [dif_neg (fun h => hlarge h.1)]
    rfl
  have hproduct : UnpackedFloat.ofScientific Format.binary64 n 0 =
      roundWithAccuracy Format.binary64 .positive (n <<< 53 * 1) (-53 + 0) .exact := by
    unfold UnpackedFloat.ofScientific
    have htiny : ¬ (0 : Int) < -(2 ^ Format.binary64.exponentBits + n.log2) := by
      show ¬ (0 : Int) < -(2048 + n.log2)
      omega
    rw [dif_neg (by omega), if_neg (by decide), if_neg htiny, if_pos (by decide)]
    rfl
  rw [hslow]
  show (Float.Model.pack (UnpackedFloat.ofScientific Format.binary64 n 0)).unpack = _
  rw [hproduct]

theorem isFinite_ofNat {n : Nat} (hn : n < 2 ^ 64) : (Float.ofNat n).isFinite = true := by
  show (Float.ofNat n).toModel.unpack.isFinite = true
  by_cases hsmall : n < 2 ^ 53
  · rcases Nat.eq_zero_or_pos n with rfl | hpos
    · rfl
    · obtain ⟨j, hj, hfull, hlt⟩ := exists_full hpos hsmall
      rw [unpack_ofNat hfull hlt hj]
      rfl
  · rw [unpack_ofNat_large hsmall]
    apply isFinite_roundWithAccuracy
    · rw [Nat.shiftLeft_eq]
      omega
    · decide

theorem isFinite_neg {x : Float} (hx : x.isFinite = true) : (-x).isFinite = true := by
  show (Float.Model.pack x.toModel.unpack.neg).unpack.isFinite = true
  change x.toModel.unpack.isFinite = true at hx
  cases hunpack : x.toModel.unpack with
  | notANumber =>
      rw [hunpack] at hx
      cases hx
  | infinity sign =>
      rw [hunpack] at hx
      cases hx
  | zero sign => cases sign <;> rfl
  | finite sign m q hm => exact isFinite_pack hm (exponent_le_of_bits hunpack) (-sign)

theorem isFinite_ofInt {k : Int} (hk : Number.inRange k = true) :
    (Float.ofInt k).isFinite = true := by
  have hrange : -0x8000000000000000 ≤ k ∧ k < 0x10000000000000000 := by
    simpa [Number.inRange] using hk
  cases k with
  | ofNat n => exact isFinite_ofNat (Int.ofNat_lt.mp hrange.2)
  | negSucc n => exact isFinite_neg (isFinite_ofNat (by omega))

/-!
# Whole doubles
-/

theorem unpack_ofInt {n j : Nat} (hfull : 2 ^ 52 ≤ n * 2 ^ j) (hlt : n * 2 ^ j < 2 ^ 53)
    (hj : j ≤ 52) (sign : Sign) :
    (Float.ofInt (if sign == .negative then -(n : Int) else n)).toModel.unpack =
      .finite sign (n * 2 ^ j) (-j) (by omega) := by
  have hminimum : Interval.minExponent = -1074 := rfl
  cases sign with
  | positive => exact unpack_ofNat hfull hlt hj
  | negative =>
      cases n with
      | zero => omega
      | succ n =>
          show (Float.Model.pack (Float.ofNat (n + 1)).toModel.unpack.neg).unpack = _
          rw [unpack_ofNat hfull hlt hj]
          exact unpack_pack_full hfull hlt (by omega) (by omega) .negative

theorem exists_whole_of_size {m : Nat} {q : Int} (h : Canonical m q) {n : Nat}
    (hn : (if 0 ≤ q then
        some (m * Nat.pow 2 q.toNat)
      else if m % Nat.pow 2 (-q).toNat = 0 then
        some (m / Nat.pow 2 (-q).toNat)
      else
        none) = some n)
    (hsafe : n ≤ Number.maxSafe) :
    ∃ j : Nat, j ≤ 52 ∧ m = n * 2 ^ j ∧ q = -j ∧ 2 ^ 52 ≤ m := by
  have hminimum : Interval.minExponent = -1074 := rfl
  have hm := h.pos
  have hlt := h.lt
  change n ≤ 2 ^ 53 - 1 at hsafe
  split at hn
  · rename_i hq
    injection hn with hn
    have hfull := h.full (by omega)
    refine ⟨0, by omega, ?_⟩
    cases hpower : q.toNat with
    | zero =>
        rw [hpower] at hn
        change m * 1 = n at hn
        exact ⟨by omega, by omega, hfull⟩
    | succ p =>
        -- twice a full significand is not safe
        have htwice : m * 2 ≤ n := by
          rw [← hn, hpower]
          show m * 2 ≤ m * 2 ^ (p + 1)
          apply Nat.mul_le_mul_left
          exact Nat.le_self_pow (Nat.succ_ne_zero p) 2
        omega
  · rename_i hq
    split at hn
    · rename_i hrest
      injection hn with hn
      have hback : m = n * 2 ^ (-q).toNat := by
        rw [← hn]
        exact (Nat.div_mul_cancel (Nat.dvd_of_mod_eq_zero hrest)).symm
      have hsmall : (-q).toNat < 53 := by
        apply (Nat.pow_lt_pow_iff_right (by decide : 1 < 2)).mp
        exact Nat.lt_of_le_of_lt (Nat.le_of_dvd hm (Nat.dvd_of_mod_eq_zero hrest)) hlt
      exact ⟨(-q).toNat, by omega, hback, by omega, h.full (by omega)⟩
    · cases hn

end Decimal

namespace Number

open Float.Model UnpackedFloat Decimal

def unsigned (x : Float) : Float :=
  if x = -0.0 then 0.0 else x

theorem unsigned_of_ne {x : Float} (h : x ≠ -0.0) : unsigned x = x :=
  if_neg h

theorem ofInt_of_whole {x : Float} {k : Int} (h : whole? x = some k)
    (hsafe : k.natAbs ≤ maxSafe) : Float.ofInt k = unsigned x := by
  unfold whole? at h
  split at h
  · rename_i sign hunpack
    cases h
    cases sign with
    | positive =>
        have hx : x = 0.0 := eq_of_unpack hunpack
        rw [hx]
        rfl
    | negative =>
        have hx : x = -0.0 := eq_of_unpack hunpack
        rw [hx]
        rfl
  · rename_i sign m q hm hunpack
    obtain ⟨_, hsize, hk⟩ := Option.map_eq_some_iff.mp h
    obtain ⟨n, hn, hcast⟩ := Option.bind_eq_some_iff.mp hsize
    cases hcast
    have hsame : n = k.natAbs := by
      rw [← hk]
      cases sign
      · exact (Int.natAbs_neg n).symm
      · rfl
    obtain ⟨j, hj, rfl, rfl, hfull⟩ :=
      exists_whole_of_size (canonical_of_unpack hunpack) hn (hsame ▸ hsafe)
    have hlt := (canonical_of_unpack hunpack).lt
    have hne : x ≠ -0.0 := by
      rintro rfl
      cases hunpack
    rw [unsigned_of_ne hne]
    apply eq_of_unpack
    rw [hunpack, ← hk]
    exact unpack_ofInt hfull hlt hj sign
  · cases h

theorem isFinite_of_whole {x : Float} {k : Int} (h : whole? x = some k) : x.isFinite = true := by
  show x.toModel.unpack.isFinite = true
  unfold whole? at h
  split at h
  · rename_i hunpack
    rw [hunpack]
    rfl
  · rename_i hunpack
    rw [hunpack]
    rfl
  · cases h

theorem isFinite_toFloat {n : Number} (hn : (Json.num n).isWellFormed = true) :
    n.toFloat.isFinite = true := by
  cases n with
  | int k => exact isFinite_ofInt hn
  | double x => exact hn

theorem beq_unsigned {x : Float} (hx : x.isFinite = true) : (x == unsigned x) = true := by
  unfold unsigned
  split
  · rename_i hzero
    rw [hzero]
    rfl
  · rw [Float.beq_self_iff]
    rintro rfl
    cases hx

end Number

namespace Json

theorem ofNumber_unsigned (x : Float) : ofNumber (Number.unsigned x) = ofNumber x := by
  unfold Number.unsigned
  split
  · rename_i hzero
    rw [hzero]
    rfl
  · rfl

theorem whole?_negative_zero : Number.whole? (-0.0) = some 0 := rfl

/-- A finite double is written as a number that stands for it, up to the sign of zero. -/
theorem exists_ofNumber {x : Float} (hx : x.isFinite = true) :
    ∃ n, ofNumber x = .num n ∧ (Json.num n).isWellFormed = true ∧
      n.toFloat = Number.unsigned x := by
  unfold ofNumber
  split
  · rename_i k hwhole
    split
    · rename_i hsafe
      refine ⟨.int k, rfl, ?_, Number.ofInt_of_whole hwhole hsafe⟩
      show Number.inRange k = true
      have hbound : Number.maxSafe = 0x1fffffffffffff := rfl
      simp only [Number.inRange, Bool.and_eq_true, decide_eq_true_eq]
      omega
    · rename_i hlarge
      refine ⟨.double x, rfl, hx, (Number.unsigned_of_ne ?_).symm⟩
      rintro rfl
      rw [whole?_negative_zero] at hwhole
      cases hwhole
      exact hlarge (by decide)
  · rename_i hwhole
    refine ⟨.double x, if_pos hx, hx, (Number.unsigned_of_ne ?_).symm⟩
    rintro rfl
    rw [whole?_negative_zero] at hwhole
    cases hwhole

theorem ofNumber_eq_null {x : Float} (hx : x.isFinite = false) : ofNumber x = .null := by
  have hnone : Number.whole? x = none := by
    cases hwhole : Number.whole? x with
    | none => rfl
    | some k =>
        rw [Number.isFinite_of_whole hwhole] at hx
        cases hx
  unfold ofNumber
  rw [hnone]
  unfold ofFloat
  rw [hx]
  rfl

/-- Every double is written as a value of a document, as null if it is not finite. -/
theorem isWellFormed_ofNumber (x : Float) : (ofNumber x).isWellFormed = true := by
  cases hx : x.isFinite with
  | true =>
      obtain ⟨n, hn, hformed, _⟩ := exists_ofNumber hx
      rw [hn]
      exact hformed
  | false =>
      rw [ofNumber_eq_null hx]
      rfl

end Json
end Reckoner
