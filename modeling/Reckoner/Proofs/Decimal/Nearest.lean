import Reckoner.Proofs.Decimal.Order

/-!
# The nearest double

The sum, the difference, the product and the quotient of doubles are the exact ones,
rounded.  A result in range is a double than which none is nearer, so it keeps to the same side
of every double as the exact number does.  It is zero only where the exact number is at
most half of the least double, and out of range it is an infinity with the sign of the
exact number.
-/

namespace Reckoner

open Float.Model UnpackedFloat Decimal

namespace Number

/-- A double is what a number is rounded to.  None of the numbers with the bits of a significand is
nearer, with whatever exponent. -/
structure Rounded (v : ℚ) (x : Float) : Prop where
  number : x.isNaN = false
  finite_iff : x.isFinite = true ↔ |v| < overflowSize
  infinite : x.isFinite = false ->
    x.toModel.unpack = .infinity (if v < 0 then .negative else .positive)
  vanishes_iff : x.isFinite = true -> (exact x = 0 ↔ |v| ≤ 2 ^ (-1075 : Int))
  nearest : x.isFinite = true -> ∀ k p : ℤ, |k| < 2 ^ 53 -> Interval.minExponent ≤ p ->
    |v - exact x| ≤ |v - k * 2 ^ p|

theorem exact_of_sized {sign : Sign} {size : ℚ} {u : UnpackedFloat} {x : Float}
    (hu : Sized sign size u) (hx : x.toModel.unpack = u) : exact x = signed sign size := by
  cases hu with
  | zero hzero =>
      rw [exact_of_zero hx, hzero]
      cases sign with
      | positive => rfl
      | negative => exact neg_zero.symm
  | finite h hsize => rw [exact_of_finite hx, apply_mul, hsize]

theorem abs_signed_sub (sign : Sign) (a b : ℚ) : |signed sign a - b| = |a - signed sign b| := by
  cases sign with
  | positive => rfl
  | negative =>
      show |-a - b| = |a - -b|
      rw [← abs_neg]
      ring_nf

theorem signed_mul (sign sign' : Sign) (a b : ℚ) :
    signed sign a * signed sign' b = signed (sign * sign') (a * b) := by
  cases sign with
  | positive =>
      cases sign' with
      | positive => rfl
      | negative => exact mul_neg a b
  | negative =>
      cases sign' with
      | positive => exact neg_mul a b
      | negative => exact neg_mul_neg a b

theorem signed_div (sign sign' : Sign) (a b : ℚ) :
    signed sign a / signed sign' b = signed (sign / sign') (a / b) := by
  cases sign with
  | positive =>
      cases sign' with
      | positive => rfl
      | negative => exact div_neg a
  | negative =>
      cases sign' with
      | positive => exact neg_div b a
      | negative => exact neg_div_neg_eq a b

theorem rounded_of_rounds {v : ℚ} {u : UnpackedFloat} (h : Rounds v u) {x : Float}
    (hx : x.toModel.unpack = (Float.Model.pack u).unpack) : Rounded v x := by
  have hfinite := h.isFinite_iff
  have hnumber := h.isNaN
  rw [← hx] at hfinite hnumber
  obtain ⟨sign, w, t, r, rfl, hw, hr, hu⟩ := h
  have hsize := hw.size_nonneg
  rw [unpack_pack_of_sized hu] at hx
  have hexact (hin : x.isFinite = true) : exact x = signed sign (r * 2 ^ t) := by
    refine exact_of_sized hu (hx.trans (if_pos ?_))
    rwa [← hw.lt_overflowSize_iff hr, ← abs_signed sign hsize, ← hfinite]
  refine ⟨hnumber, hfinite, ?_, ?_, ?_⟩
  · intro hout
    have hlarge : ¬ (w * 2 ^ t < overflowSize) := by
      rw [← abs_signed sign hsize, ← hfinite]
      exact Bool.eq_false_iff.mp hout
    have hpos : 0 < w * 2 ^ t := overflowSize_pos.trans_le (le_of_not_gt hlarge)
    rw [hw.lt_overflowSize_iff hr] at hlarge
    rw [hx, if_neg hlarge]
    cases sign with
    | positive => exact congrArg UnpackedFloat.infinity (if_neg (not_lt_of_gt hpos)).symm
    | negative => exact congrArg UnpackedFloat.infinity (if_pos (neg_neg_of_pos hpos)).symm
  · intro hin
    have hpow : (2 ^ t : ℚ) ≠ 0 := by positivity
    rw [hexact hin, abs_signed sign hsize, ← hw.rounded_eq_zero_iff hr]
    cases sign with
    | positive => simp [signed, hpow]
    | negative => simp [signed, hpow]
  · intro hin k p hk hp
    rw [hexact hin, abs_signed_sub, abs_signed_sub]
    cases sign with
    | positive => exact hw.nearest hr hk hp
    | negative =>
        have hother : signed .negative (k * 2 ^ p) = ((-k : ℤ) : ℚ) * 2 ^ p := by
          rw [signed, Int.cast_neg, neg_mul]
        rw [hother]
        simp only [signed, neg_neg]
        exact hw.nearest hr ((abs_neg k).symm ▸ hk) hp

/-!
# The side of a double
-/

theorem exists_parts {y : Float} (hy : y.isFinite = true) :
    ∃ k p : ℤ, exact y = k * 2 ^ p ∧ |k| < 2 ^ 53 ∧ Interval.minExponent ≤ p := by
  rcases unpack_cases hy with ⟨sign, hunpack⟩ | ⟨sign, m, q, hm, hunpack⟩
  · refine ⟨0, Interval.minExponent, ?_, by decide, le_rfl⟩
    rw [exact_of_zero hunpack, Int.cast_zero, zero_mul]
  · have hcanonical := canonical_of_unpack hunpack
    refine ⟨sign.apply m, q, exact_of_finite hunpack, ?_, hcanonical.least⟩
    have habs : |sign.apply (m : ℤ)| = m := by
      cases sign with
      | positive => exact abs_of_nonneg (Int.natCast_nonneg m)
      | negative => exact (abs_neg _).trans (abs_of_nonneg (Int.natCast_nonneg m))
    rw [habs]
    exact_mod_cast hcanonical.lt

namespace Rounded

variable {v : ℚ} {x y : Float}

/-- No double is nearer. -/
theorem dist_le (h : Rounded v x) (hx : x.isFinite = true) (hy : y.isFinite = true) :
    |v - exact x| ≤ |v - exact y| := by
  obtain ⟨k, p, hexact, hk, hp⟩ := exists_parts hy
  rw [hexact]
  exact h.nearest hx k p hk hp

theorem place_le (h : Rounded v x) (hy : y.isFinite = true) (hle : exact y ≤ v) :
    place y ≤ place x := by
  cases hx : x.isFinite with
  | true =>
      rw [place_of_finite hy, place_of_finite hx]
      have hdist := h.dist_le hx hy
      rw [abs_of_nonneg (sub_nonneg.mpr hle)] at hdist
      have hexact : exact y ≤ exact x := by linarith [le_abs_self (v - exact x)]
      exact_mod_cast hexact
  | false =>
      have hout : ¬ |v| < overflowSize := by
        rw [← h.finite_iff, hx]
        exact Bool.false_ne_true
      have hnonneg : ¬ v < 0 := by
        intro hneg
        rw [abs_of_neg hneg] at hout
        linarith [(abs_lt.mp (abs_exact_lt hy)).1]
      have hinfinite := h.infinite hx
      rw [if_neg hnonneg] at hinfinite
      rw [place_of_positive_infinity hinfinite]
      exact le_top

theorem le_place (h : Rounded v x) (hy : y.isFinite = true) (hle : v ≤ exact y) :
    place x ≤ place y := by
  cases hx : x.isFinite with
  | true =>
      rw [place_of_finite hy, place_of_finite hx]
      have hdist := h.dist_le hx hy
      rw [abs_sub_comm v (exact y), abs_of_nonneg (sub_nonneg.mpr hle)] at hdist
      have hexact : exact x ≤ exact y := by linarith [neg_abs_le (v - exact x)]
      exact_mod_cast hexact
  | false =>
      have hout : ¬ |v| < overflowSize := by
        rw [← h.finite_iff, hx]
        exact Bool.false_ne_true
      have hneg : v < 0 := by
        by_contra hnonneg
        rw [abs_of_nonneg (le_of_not_gt hnonneg)] at hout
        linarith [(abs_lt.mp (abs_exact_lt hy)).2]
      have hinfinite := h.infinite hx
      rw [if_pos hneg] at hinfinite
      rw [place_of_negative_infinity hinfinite]
      exact bot_le

end Rounded

/-!
# The operations
-/

section Operations

variable {x y : Float}

theorem rounded_add (hx : x.isFinite = true) (hy : y.isFinite = true) :
    Rounded (exact x + exact y) (x + y) :=
  rounded_of_rounds (rounds_add hx hy) rfl

theorem unpacked_sub (u v : UnpackedFloat) :
    UnpackedFloat.sub Format.binary64 u v = UnpackedFloat.add Format.binary64 u v.neg := by
  cases u with
  | notANumber => rfl
  | infinity sign =>
      cases v with
      | infinity sign' => cases sign <;> cases sign' <;> rfl
      | _ => rfl
  | zero sign =>
      cases v with
      | zero sign' => cases sign <;> cases sign' <;> rfl
      | _ => rfl
  | finite sign m q hm =>
      cases v with
      | finite sign' m' q' hm' =>
          have hneg (n : Nat) : (-sign').apply n = -sign'.apply n := by
            cases sign' with
            | positive => rfl
            | negative => exact (neg_neg (n : ℤ)).symm
          show UnpackedFloat.normalize _ (sign.apply _ - sign'.apply _) _ _ =
            UnpackedFloat.normalize _ (sign.apply _ + (-sign').apply _) _ _
          rw [hneg, ← sub_eq_add_neg]
      | _ => rfl

theorem sub_eq_add (x y : Float) : x - y = x + -y := by
  apply eq_of_unpack
  show (Float.Model.pack (UnpackedFloat.sub Format.binary64 x.toModel.unpack
    y.toModel.unpack)).unpack = _
  rw [unpacked_sub, unpack_add, unpack_neg]

theorem rounded_sub (hx : x.isFinite = true) (hy : y.isFinite = true) :
    Rounded (exact x - exact y) (x - y) := by
  have hsum := rounded_add hx (isFinite_neg hy)
  rwa [exact_neg hy, ← sub_eq_add_neg, ← sub_eq_add] at hsum

theorem le_log2 {n k : Nat} (h : 2 ^ k ≤ n) : k ≤ n.log2 :=
  (Nat.le_log2 (Nat.ne_of_gt ((Nat.two_pow_pos k).trans_le h))).mpr h

theorem rounded_mul (hx : x.isFinite = true) (hy : y.isFinite = true) :
    Rounded (exact x * exact y) (x * y) := by
  have hunpacked : (x * y).toModel.unpack = (Float.Model.pack (UnpackedFloat.mul Format.binary64
    x.toModel.unpack y.toModel.unpack)).unpack := rfl
  refine rounded_of_rounds ?_ hunpacked
  rcases unpack_cases hx with ⟨sign, hunpack⟩ | ⟨sign, m, q, hm, hunpack⟩
  · rw [exact_of_zero hunpack, zero_mul, hunpack]
    rcases unpack_cases hy with ⟨sign', hunpack'⟩ | ⟨sign', m', q', hm', hunpack'⟩
    · rw [hunpack']
      exact rounds_zero _
    · rw [hunpack']
      exact rounds_zero _
  · rcases unpack_cases hy with ⟨sign', hunpack'⟩ | ⟨sign', m', q', hm', hunpack'⟩
    · rw [exact_of_zero hunpack', mul_zero, hunpack, hunpack']
      exact rounds_zero _
    · have hcanonical := canonical_of_unpack hunpack
      have hcanonical' := canonical_of_unpack hunpack'
      have hminimum : Interval.minExponent = -1074 := rfl
      have hleast := hcanonical.least
      have hleast' := hcanonical'.least
      have hbits : q + q' ≤ max ((m * m').log2 + (q + q') - 52) Interval.minExponent := by
        rcases eq_or_lt_of_le hleast with hsmall | hnormal
        · rcases eq_or_lt_of_le hleast' with hsmall' | hnormal'
          · omega
          · have hlog := le_log2 ((hcanonical'.full hnormal').trans (Nat.le_mul_of_pos_left m' hm))
            omega
        · have hlog := le_log2 ((hcanonical.full hnormal).trans (Nat.le_mul_of_pos_right m hm'))
          omega
      have hproduct : exact x * exact y =
          signed (sign * sign') (((m * m' : Nat) : ℚ) * 2 ^ (q + q')) := by
        rw [exact_of_finite hunpack, exact_of_finite hunpack', apply_mul, apply_mul, signed_mul,
          zpow_add₀ (by norm_num), Nat.cast_mul, mul_mul_mul_comm]
      rw [hproduct, hunpack, hunpack']
      exact rounds_roundWithAccuracy (.whole rfl) hbits (sign * sign')

/-- The first bits of a quotient, as many as a double has or more. -/
theorem rounds_quotient {m n : Nat} (hm : 0 < m) (hn : 0 < n) (q p : Int) (sign : Sign) :
    Rounds (signed sign (m * 2 ^ q / (n * 2 ^ p)))
      (match divCore Format.binary64 m q n p with
        | (m, e, accuracy) => roundWithAccuracy Format.binary64 sign m e accuracy) := by
  have htotal : Format.binary64.targetExponent (totalExponent m q - totalExponent n p) =
      max (m.log2 + q - n.log2 - p - 53) Interval.minExponent := by
    unfold Format.targetExponent totalExponent
    show max (_ - (53 : Int)) Interval.minExponent = _
    congr 1
    omega
  obtain ⟨k, t, hk, ht⟩ : ∃ (k : Nat) (t : Int), q - p = t + k ∧
      t = min (q - p) (max (m.log2 + q - n.log2 - p - 53) Interval.minExponent) :=
    ⟨(q - p - min (q - p) (max (m.log2 + q - n.log2 - p - 53) Interval.minExponent)).toNat,
      _, by omega, rfl⟩
  have hcore : divCore Format.binary64 m q n p =
      (m * 2 ^ k / n, t, accuracyOfFraction (m * 2 ^ k % n) n) := by
    have hshift : (q - p - t).toNat = k := by omega
    unfold divCore
    simp only [htotal, ← ht, hshift, Nat.shiftLeft_eq]
  have hbits : t ≤ max ((m * 2 ^ k / n).log2 + t - 52) Interval.minExponent := by
    rcases le_or_gt t Interval.minExponent with hsmall | hnormal
    · omega
    · have hexponents : 2 ^ 52 * 2 ^ (n.log2 + 1) ≤ 2 ^ m.log2 * 2 ^ k := by
        rw [← Nat.pow_add, ← Nat.pow_add]
        exact Nat.pow_le_pow_right two_pos (by omega)
      have hfull : 2 ^ 52 ≤ m * 2 ^ k / n := by
        rw [Nat.le_div_iff_mul_le hn]
        calc
          2 ^ 52 * n ≤ 2 ^ 52 * 2 ^ (n.log2 + 1) :=
            Nat.mul_le_mul_left _ Nat.lt_log2_self.le
          _ ≤ 2 ^ m.log2 * 2 ^ k := hexponents
          _ ≤ m * 2 ^ k := Nat.mul_le_mul_right _ (Nat.log2_self_le (Nat.ne_of_gt hm))
      have hlog := le_log2 hfull
      omega
  have hvalue : (m * 2 ^ q / (n * 2 ^ p) : ℚ) = ((m * 2 ^ k : Nat) : ℚ) / n * 2 ^ t := by
    have hpow : (2 ^ q / 2 ^ p : ℚ) = 2 ^ k * 2 ^ t := by
      rw [← zpow_sub₀ (by norm_num), hk, zpow_add₀ (by norm_num), zpow_natCast, mul_comm]
    rw [mul_div_mul_comm, hpow, Nat.cast_mul, Nat.cast_pow, Nat.cast_ofNat]
    ring
  rw [hcore, hvalue]
  exact rounds_roundWithAccuracy (stands_of_fraction _ hn) hbits sign

theorem rounded_div (hx : x.isFinite = true) (hy : y.isFinite = true) (hzero : exact y ≠ 0) :
    Rounded (exact x / exact y) (x / y) := by
  have hunpacked : (x / y).toModel.unpack = (Float.Model.pack (UnpackedFloat.div Format.binary64
    x.toModel.unpack y.toModel.unpack)).unpack := rfl
  refine rounded_of_rounds ?_ hunpacked
  rcases unpack_cases hy with ⟨sign', hunpack'⟩ | ⟨sign', m', q', hm', hunpack'⟩
  · exact absurd (exact_of_zero hunpack') hzero
  · rcases unpack_cases hx with ⟨sign, hunpack⟩ | ⟨sign, m, q, hm, hunpack⟩
    · rw [exact_of_zero hunpack, zero_div, hunpack, hunpack']
      exact rounds_zero _
    · rw [exact_of_finite hunpack, exact_of_finite hunpack', apply_mul, apply_mul, signed_div,
        hunpack, hunpack']
      exact rounds_quotient hm hm' q q' (sign / sign')

theorem isFinite_pack_of_not {u : UnpackedFloat} (hu : u.isFinite = false) :
    (Float.Model.pack u).unpack.isFinite = false := by
  cases u with
  | notANumber => rfl
  | infinity sign =>
      rw [unpack_pack_infinity]
      rfl
  | zero sign => cases hu
  | finite sign m q hm => cases hu

theorem isFinite_mul_of_left (hx : x.isFinite = false) (y : Float) :
    (x * y).isFinite = false := by
  have hproduct : (UnpackedFloat.mul Format.binary64 x.toModel.unpack
      y.toModel.unpack).isFinite = false := by
    change x.toModel.unpack.isFinite = false at hx
    generalize x.toModel.unpack = u at hx ⊢
    cases u with
    | notANumber => rfl
    | infinity sign => cases y.toModel.unpack <;> rfl
    | zero sign => cases hx
    | finite sign m q hm => cases hx
  exact isFinite_pack_of_not hproduct

theorem isFinite_mul_of_right (x : Float) (hy : y.isFinite = false) :
    (x * y).isFinite = false := by
  have hproduct : (UnpackedFloat.mul Format.binary64 x.toModel.unpack
      y.toModel.unpack).isFinite = false := by
    change y.toModel.unpack.isFinite = false at hy
    generalize y.toModel.unpack = v at hy ⊢
    cases v with
    | notANumber => cases x.toModel.unpack <;> rfl
    | infinity sign => cases x.toModel.unpack <;> rfl
    | zero sign => cases hy
    | finite sign m q hm => cases hy
  exact isFinite_pack_of_not hproduct

/-- What is not finite stays so, whatever it is multiplied with. -/
theorem finite_of_mul (h : (x * y).isFinite = true) :
    x.isFinite = true ∧ y.isFinite = true := by
  constructor
  · by_contra hx
    rw [isFinite_mul_of_left (Bool.eq_false_iff.mpr hx) y] at h
    cases h
  · by_contra hy
    rw [isFinite_mul_of_right x (Bool.eq_false_iff.mpr hy)] at h
    cases h

end Operations

/-!
# Whole numbers
-/

theorem exact_ofNat {n j : Nat} (hfull : 2 ^ 52 ≤ n * 2 ^ j) (hlt : n * 2 ^ j < 2 ^ 53)
    (hj : j ≤ 52) : exact (Float.ofNat n) = n := by
  rw [exact_of_finite (unpack_ofNat hfull hlt hj)]
  show (((n * 2 ^ j : Nat) : ℤ) : ℚ) * 2 ^ (-(j : Int)) = n
  rw [Int.cast_natCast, Nat.cast_mul, Nat.cast_pow, mul_assoc, Nat.cast_ofNat, ← zpow_natCast,
    ← zpow_add₀ (by norm_num), add_neg_cancel, zpow_zero, mul_one]

theorem rounded_exact {x : Float} (hx : x.isFinite = true) : Rounded (exact x) x := by
  refine rounded_of_rounds (rounds_unpack hx) ?_
  show x.toModel.unpack = (Float.ofBits x.toBits).toModel.unpack
  rw [Float.ofBits_toBits]

theorem rounded_ofNat (n : Nat) : Rounded n (Float.ofNat n) := by
  by_cases hsmall : n < 2 ^ 53
  · rcases Nat.eq_zero_or_pos n with rfl | hpos
    · have hzero : (Float.ofNat 0).toModel.unpack = .zero .positive := rfl
      have hself := rounded_exact (isFinite_ofNat (n := 0) (by decide))
      rwa [exact_of_zero hzero] at hself
    · obtain ⟨j, hj, hfull, hlt⟩ := exists_full hpos hsmall
      have hself := rounded_exact (isFinite_ofNat (hsmall.trans (by decide)))
      rwa [exact_ofNat hfull hlt hj] at hself
  · have hlog : (n <<< 53 * 1).log2 = n.log2 + 53 := by
      rw [Nat.mul_one, Nat.shiftLeft_eq, log2_mul_two_pow (by omega)]
    have hbits := le_log2 (Nat.le_of_not_lt hsmall)
    have hvalue : (n : ℚ) =
        signed .positive (((n <<< 53 * 1 : Nat) : ℚ) * 2 ^ (-53 + 0 : Int)) := by
      rw [Nat.mul_one, Nat.shiftLeft_eq, Nat.cast_mul, signed, Nat.cast_pow, mul_assoc,
        Nat.cast_ofNat, ← zpow_natCast, ← zpow_add₀ (by norm_num)]
      exact (mul_one _).symm
    rw [hvalue]
    exact rounded_of_rounds (rounds_roundWithAccuracy (.whole rfl) (by omega) .positive)
      (unpack_ofNat_large hsmall)

/-!
# Bounds
-/

structure Between (low high : ℚ) (x : Float) : Prop where
  finite : x.isFinite = true
  least : low ≤ exact x
  most : exact x ≤ high

section Bounds

variable {x y : Float} {v : ℚ}

theorem place_le_iff_exact (hx : x.isFinite = true) (hy : y.isFinite = true) :
    place x ≤ place y ↔ exact x ≤ exact y := by
  rw [place_of_finite hx, place_of_finite hy]
  norm_cast

theorem le_iff_exact (hx : x.isFinite = true) (hy : y.isFinite = true) :
    x ≤ y ↔ exact x ≤ exact y := by
  rw [le_iff_place (isNaN_of_isFinite hx) (isNaN_of_isFinite hy), place_le_iff_exact hx hy]

theorem lt_iff_exact (hx : x.isFinite = true) (hy : y.isFinite = true) :
    x < y ↔ exact x < exact y := by
  rw [lt_iff_place (isNaN_of_isFinite hx) (isNaN_of_isFinite hy), ← not_le, ← not_le,
    place_le_iff_exact hy hx]

theorem isNaN_of_le (h : x ≤ y) : x.isNaN = false ∧ y.isNaN = false := by
  change decide (x.toModel ≤ y.toModel) = true at h
  rw [decide_eq_true_iff] at h
  change (UnpackedFloat.compare x.toModel.unpack y.toModel.unpack).any (·.isLE) = true at h
  show x.toModel.unpack.isNaN = false ∧ y.toModel.unpack.isNaN = false
  cases hx : x.toModel.unpack <;> cases hy : y.toModel.unpack <;> rw [hx, hy] at h <;>
    first
    | exact ⟨rfl, rfl⟩
    | cases h

/-- A number between two finite ones is finite. -/
theorem between_iff {a b : Float} (ha : a.isFinite = true) (hb : b.isFinite = true) :
    Between (exact a) (exact b) x ↔ a ≤ x ∧ x ≤ b := by
  constructor
  · intro h
    exact ⟨(le_iff_exact ha h.finite).mpr h.least, (le_iff_exact h.finite hb).mpr h.most⟩
  · rintro ⟨hleast, hmost⟩
    have hnumber := (isNaN_of_le hleast).2
    have hlow := (le_iff_place (isNaN_of_isFinite ha) hnumber).mp hleast
    have hhigh := (le_iff_place hnumber (isNaN_of_isFinite hb)).mp hmost
    rw [place_of_finite ha] at hlow
    rw [place_of_finite hb] at hhigh
    rcases number_cases hnumber with hbot | htop | hfinite
    · rw [place_of_negative_infinity hbot] at hlow
      exact absurd hlow (not_le_of_gt (EReal.bot_lt_coe _))
    · rw [place_of_positive_infinity htop] at hhigh
      exact absurd hhigh (not_le_of_gt (EReal.coe_lt_top _))
    · exact ⟨hfinite, (le_iff_exact ha hfinite).mp hleast, (le_iff_exact hfinite hb).mp hmost⟩

/-- What is rounded stays between doubles. -/
theorem Rounded.between {a b : Float} (h : Rounded v x) (ha : a.isFinite = true)
    (hb : b.isFinite = true) (hleast : exact a ≤ v) (hmost : v ≤ exact b) :
    Between (exact a) (exact b) x := by
  have hlow := (abs_lt.mp (abs_exact_lt ha)).1
  have hhigh := (abs_lt.mp (abs_exact_lt hb)).2
  have hfinite : x.isFinite = true :=
    h.finite_iff.mpr (abs_lt.mpr ⟨hlow.trans_le hleast, hmost.trans_lt hhigh⟩)
  exact ⟨hfinite, (place_le_iff_exact ha hfinite).mp (h.place_le ha hleast),
    (place_le_iff_exact hfinite hb).mp (h.le_place hb hmost)⟩

theorem exact_zero : exact 0 = 0 := by
  have hzero : (0 : Float).toModel.unpack = .zero .positive := rfl
  exact exact_of_zero hzero

theorem exact_one : exact 1 = 1 := by
  have hone := exact_ofNat (n := 1) (j := 52) (by decide) (by decide) (by decide)
  rwa [Nat.cast_one] at hone

/-- Up to one the doubles are so close that one of them is less than `2 ^ -53` away. -/
theorem Rounded.dist_lt (h : Rounded v x) (hx : x.isFinite = true) (hleast : 0 ≤ v)
    (hmost : v ≤ 1) : |v - exact x| < 2 ^ (-53 : Int) := by
  rcases eq_or_lt_of_le hmost with rfl | hlt
  · have hself := h.dist_le hx (y := 1) rfl
    rw [exact_one, sub_self, abs_zero] at hself
    exact hself.trans_lt (by positivity)
  · have hfloor := Int.floor_le (v * 2 ^ 53)
    have hnext := Int.lt_floor_add_one (v * 2 ^ 53)
    have hnonneg : 0 ≤ ⌊v * 2 ^ 53⌋ := Int.floor_nonneg.mpr (by positivity)
    have hbits : ⌊v * 2 ^ 53⌋ < 2 ^ 53 := by
      rw [Int.floor_lt]
      push_cast
      linarith
    have hdist := h.nearest hx ⌊v * 2 ^ 53⌋ (-53) (by rwa [abs_of_nonneg hnonneg]) (by decide)
    have hstep : (2 ^ (-53 : Int) : ℚ) * 2 ^ 53 = 1 := by norm_num
    have hpos : (0 : ℚ) < 2 ^ (-53 : Int) := by positivity
    refine hdist.trans_lt ?_
    rw [abs_lt]
    constructor <;> nlinarith

/-- After one the doubles are `2 ^ -52` apart. -/
theorem exact_le_one_of_lt (hx : x.isFinite = true) (h : exact x < 1 + 2 ^ (-52 : Int)) :
    exact x ≤ 1 := by
  rcases unpack_cases hx with ⟨sign, hunpack⟩ | ⟨sign, m, q, hm, hunpack⟩
  · rw [exact_of_zero hunpack]
    exact zero_le_one
  · rw [exact_of_finite hunpack, apply_mul] at h ⊢
    cases sign with
    | negative =>
        have hsize : (0 : ℚ) ≤ m * 2 ^ q := by positivity
        show -(m * 2 ^ q : ℚ) ≤ 1
        linarith
    | positive =>
        show (m * 2 ^ q : ℚ) ≤ 1
        change (m * 2 ^ q : ℚ) < 1 + 2 ^ (-52 : Int) at h
        have hbits : (m : ℚ) < 2 ^ 53 := by exact_mod_cast (canonical_of_unpack hunpack).lt
        rcases lt_or_ge q (-52) with hsmall | hlarge
        · have hless : (m * 2 ^ q : ℚ) < 2 ^ (0 : Int) := mul_zpow_lt hbits (by push_cast; omega)
          rw [zpow_zero] at hless
          exact hless.le
        · obtain ⟨k, rfl⟩ : ∃ k : Nat, q = -52 + k := ⟨(q + 52).toNat, by omega⟩
          have hpos : (0 : ℚ) < 2 ^ (-52 : Int) := by positivity
          have hone : (1 : ℚ) = 2 ^ 52 * 2 ^ (-52 : Int) := by norm_num
          have hsteps : (m * 2 ^ (-52 + k : Int) : ℚ) = (m * 2 ^ k : Nat) * 2 ^ (-52 : Int) := by
            rw [zpow_add₀ (by norm_num), zpow_natCast, Nat.cast_mul, Nat.cast_pow, Nat.cast_ofNat]
            ring
          rw [hsteps] at h ⊢
          have hcount : m * 2 ^ k < 2 ^ 52 + 1 := by
            have hscaled : ((m * 2 ^ k : Nat) : ℚ) < 2 ^ 52 + 1 := by
              rw [hone, ← add_one_mul] at h
              exact lt_of_mul_lt_mul_right h hpos.le
            exact_mod_cast hscaled
          have hle : ((m * 2 ^ k : Nat) : ℚ) ≤ 2 ^ 52 := by exact_mod_cast Nat.le_of_lt_succ hcount
          rw [hone]
          exact mul_le_mul_of_nonneg_right hle hpos.le

end Bounds

end Number
end Reckoner
