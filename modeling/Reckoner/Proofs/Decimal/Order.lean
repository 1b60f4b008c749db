import Reckoner.Proofs.Decimal.Sum

/-!
# The order of doubles

Doubles are compared by their exponents first and then by their significands.  A double
has all the bits of its significand unless its exponent is the least one, so this is the
order of the exact numbers.  An infinity lies beyond all of them at either end, and a
double that is no number is not compared at all.
-/

namespace Reckoner

open Float.Model UnpackedFloat Decimal

namespace Decimal

/-!
# Sizes compared by their parts
-/

theorem Canonical.size_lt {m n : Nat} {p q : Int} (hm : Canonical m p) (hn : Canonical n q)
    (h : p < q) : (m * 2 ^ p : ℚ) < n * 2 ^ q := by
  have hbits : (m : ℚ) < 2 ^ 53 := by exact_mod_cast hm.lt
  have hfull : (2 ^ 52 : ℚ) ≤ n := by exact_mod_cast hn.full (lt_of_le_of_lt hm.least h)
  calc
    (m * 2 ^ p : ℚ) < 2 ^ 53 * 2 ^ p := mul_lt_mul_of_pos_right hbits (by positivity)
    _ = 2 ^ 52 * 2 ^ (p + 1) := by
        rw [zpow_add_one₀ (by norm_num)]
        ring
    _ ≤ 2 ^ 52 * 2 ^ q := by
        apply mul_le_mul_of_nonneg_left _ (by positivity)
        exact zpow_le_zpow_right₀ (by norm_num) h
    _ ≤ n * 2 ^ q := mul_le_mul_of_nonneg_right hfull (by positivity)

theorem compare_map {α β : Type} [LinearOrder α] [LinearOrder β] {f : α -> β} (hf : StrictMono f)
    (a b : α) : compare (f a) (f b) = compare a b := by
  rw [← cmp_eq_compare, ← cmp_eq_compare]
  exact hf.cmp_map_eq a b

theorem Canonical.compare_size {m n : Nat} {p q : Int} (hm : Canonical m p)
    (hn : Canonical n q) :
    (compare p q).then (compare m n) = compare (m * 2 ^ p : ℚ) (n * 2 ^ q) := by
  rcases lt_trichotomy p q with hlt | rfl | hgt
  · rw [compare_lt_iff_lt.mpr hlt, compare_lt_iff_lt.mpr (hm.size_lt hn hlt)]
    rfl
  · have hpow : (0 : ℚ) < 2 ^ p := by positivity
    have hmono : StrictMono fun k : Nat => (k * 2 ^ p : ℚ) :=
      (strictMono_mul_right_of_pos hpow).comp Nat.strictMono_cast
    rw [compare_eq_iff_eq.mpr rfl, Ordering.eq_then]
    exact (compare_map hmono m n).symm
  · rw [compare_gt_iff_gt.mpr hgt, compare_gt_iff_gt.mpr (hn.size_lt hm hgt)]
    rfl

theorem compare_neg (a b : ℚ) : compare (-a) (-b) = (compare a b).swap := by
  have hanti : StrictAnti fun a : ℚ => -a := fun _ _ => neg_lt_neg
  rw [← cmp_eq_compare, ← cmp_eq_compare, cmp_swap]
  exact hanti.cmp_map_eq a b

end Decimal

namespace Number

/-!
# Finite doubles
-/

variable {x y : Float}

theorem compare_of_finite (hx : x.isFinite = true) (hy : y.isFinite = true) :
    UnpackedFloat.compare x.toModel.unpack y.toModel.unpack =
      some (compare (exact x) (exact y)) := by
  have hsize {m : Nat} {q : Int} (hm : 0 < m) : (0 : ℚ) < m * 2 ^ q := by positivity
  have hpositive (m : Nat) : ((Sign.positive.apply m : ℤ) : ℚ) = m := Int.cast_natCast m
  have hnegative (m : Nat) (q : Int) :
      ((Sign.negative.apply m : ℤ) : ℚ) * 2 ^ q = -(m * 2 ^ q) := by
    show (((-(m : ℤ) : ℤ) : ℚ)) * 2 ^ q = _
    rw [Int.cast_neg, Int.cast_natCast, neg_mul]
  rcases unpack_cases hx with ⟨sign, hunpack⟩ | ⟨sign, m, q, hm, hunpack⟩
  · rcases unpack_cases hy with ⟨sign', hunpack'⟩ | ⟨sign', m', q', hm', hunpack'⟩
    · rw [hunpack, hunpack', exact_of_zero hunpack, exact_of_zero hunpack',
        compare_eq_iff_eq.mpr rfl]
      rfl
    · rw [hunpack, hunpack', exact_of_zero hunpack, exact_of_finite hunpack']
      cases sign' with
      | positive =>
          rw [hpositive, compare_lt_iff_lt.mpr (hsize hm')]
          rfl
      | negative =>
          rw [hnegative, compare_gt_iff_gt.mpr (neg_neg_of_pos (hsize hm'))]
          rfl
  · rcases unpack_cases hy with ⟨sign', hunpack'⟩ | ⟨sign', m', q', hm', hunpack'⟩
    · rw [hunpack, hunpack', exact_of_finite hunpack, exact_of_zero hunpack']
      cases sign with
      | positive =>
          rw [hpositive, compare_gt_iff_gt.mpr (hsize hm)]
          rfl
      | negative =>
          rw [hnegative, compare_lt_iff_lt.mpr (neg_neg_of_pos (hsize hm))]
          rfl
    · have hcanonical := canonical_of_unpack hunpack
      have hcanonical' := canonical_of_unpack hunpack'
      rw [hunpack, hunpack', exact_of_finite hunpack, exact_of_finite hunpack']
      cases sign with
      | positive =>
          cases sign' with
          | positive =>
              rw [hpositive, hpositive, ← hcanonical.compare_size hcanonical']
              rfl
          | negative =>
              have hapart := (neg_neg_of_pos (hsize (q := q') hm')).trans (hsize (q := q) hm)
              rw [hpositive, hnegative, compare_gt_iff_gt.mpr hapart]
              rfl
      | negative =>
          cases sign' with
          | positive =>
              have hapart := (neg_neg_of_pos (hsize (q := q) hm)).trans (hsize (q := q') hm')
              rw [hpositive, hnegative, compare_lt_iff_lt.mpr hapart]
              rfl
          | negative =>
              rw [hnegative, hnegative, compare_neg, ← hcanonical.compare_size hcanonical']
              rfl

/-!
# The line of all doubles
-/

/-- The place of a number on the line of the exact numbers, with an infinity at either end. -/
noncomputable def place (x : Float) : EReal :=
  match x.toModel.unpack with
  | .infinity .negative => ⊥
  | .infinity .positive => ⊤
  | _ => ((exact x : ℝ) : EReal)

theorem place_of_negative_infinity (h : x.toModel.unpack = .infinity .negative) :
    place x = ⊥ := by
  unfold place
  rw [h]

theorem place_of_positive_infinity (h : x.toModel.unpack = .infinity .positive) :
    place x = ⊤ := by
  unfold place
  rw [h]

theorem place_of_finite (hx : x.isFinite = true) : place x = ((exact x : ℝ) : EReal) := by
  unfold place
  rcases unpack_cases hx with ⟨sign, hunpack⟩ | ⟨sign, m, q, hm, hunpack⟩ <;> rw [hunpack]

theorem number_cases (hx : x.isNaN = false) :
    x.toModel.unpack = .infinity .negative ∨ x.toModel.unpack = .infinity .positive ∨
      x.isFinite = true := by
  change x.toModel.unpack.isNaN = false at hx
  show _ ∨ _ ∨ x.toModel.unpack.isFinite = true
  cases hunpack : x.toModel.unpack with
  | notANumber =>
      rw [hunpack] at hx
      cases hx
  | infinity sign =>
      cases sign with
      | negative => exact .inl rfl
      | positive => exact .inr (.inl rfl)
  | zero sign => exact .inr (.inr rfl)
  | finite sign m q hm => exact .inr (.inr rfl)

theorem compare_place_of_finite (hx : x.isFinite = true) (hy : y.isFinite = true) :
    compare (place x) (place y) = compare (exact x) (exact y) := by
  have hmono : StrictMono fun a : ℚ => ((a : ℝ) : EReal) :=
    EReal.coe_strictMono.comp Rat.cast_strictMono
  rw [place_of_finite hx, place_of_finite hy]
  exact compare_map hmono (exact x) (exact y)

theorem compare_of_numbers (hx : x.isNaN = false) (hy : y.isNaN = false) :
    UnpackedFloat.compare x.toModel.unpack y.toModel.unpack =
      some (compare (place x) (place y)) := by
  rcases number_cases hx with hbot | htop | hfinite
  · rw [place_of_negative_infinity hbot, hbot]
    rcases number_cases hy with hbot' | htop' | hfinite'
    · rw [place_of_negative_infinity hbot', hbot', compare_eq_iff_eq.mpr rfl]
      rfl
    · rw [place_of_positive_infinity htop', htop', compare_lt_iff_lt.mpr bot_lt_top]
      rfl
    · rw [place_of_finite hfinite', compare_lt_iff_lt.mpr (EReal.bot_lt_coe _)]
      rcases unpack_cases hfinite' with ⟨sign, hunpack⟩ | ⟨sign, m, q, hm, hunpack⟩ <;>
        rw [hunpack] <;> rfl
  · rw [place_of_positive_infinity htop, htop]
    rcases number_cases hy with hbot' | htop' | hfinite'
    · rw [place_of_negative_infinity hbot', hbot', compare_gt_iff_gt.mpr bot_lt_top]
      rfl
    · rw [place_of_positive_infinity htop', htop', compare_eq_iff_eq.mpr rfl]
      rfl
    · rw [place_of_finite hfinite', compare_gt_iff_gt.mpr (EReal.coe_lt_top _)]
      rcases unpack_cases hfinite' with ⟨sign, hunpack⟩ | ⟨sign, m, q, hm, hunpack⟩ <;>
        rw [hunpack] <;> rfl
  · rcases number_cases hy with hbot' | htop' | hfinite'
    · rw [place_of_negative_infinity hbot', hbot', place_of_finite hfinite,
        compare_gt_iff_gt.mpr (EReal.bot_lt_coe _)]
      rcases unpack_cases hfinite with ⟨sign, hunpack⟩ | ⟨sign, m, q, hm, hunpack⟩ <;>
        rw [hunpack] <;> rfl
    · rw [place_of_positive_infinity htop', htop', place_of_finite hfinite,
        compare_lt_iff_lt.mpr (EReal.coe_lt_top _)]
      rcases unpack_cases hfinite with ⟨sign, hunpack⟩ | ⟨sign, m, q, hm, hunpack⟩ <;>
        rw [hunpack] <;> rfl
    · rw [compare_place_of_finite hfinite hfinite', compare_of_finite hfinite hfinite']

theorem lt_iff_place (hx : x.isNaN = false) (hy : y.isNaN = false) :
    x < y ↔ place x < place y := by
  show decide (x.toModel < y.toModel) = true ↔ _
  rw [decide_eq_true_iff]
  show (UnpackedFloat.compare x.toModel.unpack y.toModel.unpack == some .lt) = true ↔ _
  rw [compare_of_numbers hx hy, beq_iff_eq, Option.some.injEq, compare_lt_iff_lt]

theorem le_iff_place (hx : x.isNaN = false) (hy : y.isNaN = false) :
    x ≤ y ↔ place x ≤ place y := by
  show decide (x.toModel ≤ y.toModel) = true ↔ _
  rw [decide_eq_true_iff]
  show (UnpackedFloat.compare x.toModel.unpack y.toModel.unpack).any (·.isLE) = true ↔ _
  rw [compare_of_numbers hx hy, Option.any_some]
  rcases lt_trichotomy (place x) (place y) with hlt | hsame | hgt
  · rw [compare_lt_iff_lt.mpr hlt]
    exact iff_of_true rfl hlt.le
  · rw [compare_eq_iff_eq.mpr hsame]
    exact iff_of_true rfl hsame.le
  · rw [compare_gt_iff_gt.mpr hgt]
    exact iff_of_false Bool.false_ne_true (not_le_of_gt hgt)

theorem beq_iff_place (hx : x.isNaN = false) (hy : y.isNaN = false) :
    (x == y) = true ↔ place x = place y := by
  show (UnpackedFloat.compare x.toModel.unpack y.toModel.unpack == some .eq) = true ↔ _
  rw [compare_of_numbers hx hy, beq_iff_eq, Option.some.injEq, compare_eq_iff_eq]

/-!
# Negation

The negation has the bits of the number, but for the sign.
-/

theorem unpack_flipped (bits : BitVec Format.binary64.numBits) :
    UnpackedFloat.unpack Format.binary64 (packComponents Format.binary64
        (-Sign.ofBitVec (unpackSign bits)) (unpackExponent bits) (unpackMantissa bits)) =
      (UnpackedFloat.unpack Format.binary64 bits).neg := by
  unfold UnpackedFloat.unpack
  simp only [unpackExponent_packComponents, unpackMantissa_packComponents,
    unpackSign_packComponents, Sign.ofBitVec_toBitVec]
  split_ifs <;> rfl

theorem valid_flipped {bits : BitVec Format.binary64.numBits}
    (h : (UnpackedFloat.unpack Format.binary64 bits).isNaN = false) :
    Format.binary64.Valid (packComponents Format.binary64
      (-Sign.ofBitVec (unpackSign bits)) (unpackExponent bits) (unpackMantissa bits)) := by
  constructor
  intro hexponent hmantissa
  rw [unpackExponent_packComponents] at hexponent
  rw [unpackMantissa_packComponents] at hmantissa
  unfold UnpackedFloat.unpack at h
  simp only [if_pos hexponent, if_neg hmantissa] at h
  cases h

theorem unpack_neg (x : Float) : (-x).toModel.unpack = x.toModel.unpack.neg := by
  show (Float.Model.pack x.toModel.unpack.neg).unpack = x.toModel.unpack.neg
  cases hnan : x.toModel.unpack.isNaN with
  | true =>
      rw [isNaN_iff.mp hnan]
      rfl
  | false =>
      have hbits := pack_unpack_of_valid (valid_flipped hnan)
      rw [unpack_flipped] at hbits
      exact (congrArg (UnpackedFloat.unpack Format.binary64) hbits).trans (unpack_flipped _)

theorem isNaN_neg (x : Float) : (-x).isNaN = x.isNaN := by
  show (-x).toModel.unpack.isNaN = x.toModel.unpack.isNaN
  rw [unpack_neg]
  cases x.toModel.unpack <;> rfl

theorem exact_neg (hx : x.isFinite = true) : exact (-x) = -exact x := by
  have hunpack := unpack_neg x
  rcases unpack_cases hx with ⟨sign, hzero⟩ | ⟨sign, m, q, hm, hfinite⟩
  · rw [hzero] at hunpack
    rw [exact_of_zero hzero, exact_of_zero hunpack, neg_zero]
  · rw [hfinite] at hunpack
    have hsign : (-sign).apply m = -sign.apply m := by
      cases sign with
      | positive => rfl
      | negative => exact (neg_neg (m : ℤ)).symm
    rw [exact_of_finite hfinite, exact_of_finite hunpack, hsign, Int.cast_neg, neg_mul]

theorem place_neg (hx : x.isNaN = false) : place (-x) = -place x := by
  have hunpack := unpack_neg x
  rcases number_cases hx with hbot | htop | hfinite
  · rw [hbot] at hunpack
    rw [place_of_negative_infinity hbot, place_of_positive_infinity hunpack, EReal.neg_bot]
  · rw [htop] at hunpack
    rw [place_of_positive_infinity htop, place_of_negative_infinity hunpack, EReal.neg_top]
  · rw [place_of_finite hfinite, place_of_finite (isFinite_neg hfinite), exact_neg hfinite,
      Rat.cast_neg, EReal.coe_neg]

end Number
end Reckoner
