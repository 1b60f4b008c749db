import Reckoner.Proofs.Decimal.Whole

/-!
# Rounding

A number is rounded to the whole multiples of a power of two, a tie to the even one.
The power is the one with which the multiple has the fifty-three bits of a significand,
or the least one of all.  So no double is nearer to the number.  It leaves the range of
doubles from half-way between the greatest double and the power of two after it on, and
it vanishes up to half of the least double.
-/

namespace Reckoner
namespace Decimal

open Float.Model UnpackedFloat

def overflowSize : ℚ :=
  2 ^ 1024 - 2 ^ 970

/-!
# Bits that are shifted out

Of the bits after a significand the first one is kept, and whether any other one is set.
-/

/-- The numbers that a significand may stand for, given what is known of the bits after it. -/
inductive Stands : ExtendedMantissa -> ℚ -> Prop where
  | whole {m : Nat} {x : ℚ} :
      x = m ->
        Stands ⟨m, false, false⟩ x
  | low {m : Nat} {x : ℚ} :
      m < x ->
      x < m + 1 / 2 ->
        Stands ⟨m, false, true⟩ x
  | half {m : Nat} {x : ℚ} :
      x = m + 1 / 2 ->
        Stands ⟨m, true, false⟩ x
  | high {m : Nat} {x : ℚ} :
      m + 1 / 2 < x ->
      x < m + 1 ->
        Stands ⟨m, true, true⟩ x

section Stands

variable {em : ExtendedMantissa} {x : ℚ}

theorem Stands.le (h : Stands em x) : em.mantissa ≤ x := by
  cases h with
  | whole h => exact h.ge
  | low h _ => exact h.le
  | half h => linarith
  | high h _ => linarith

theorem Stands.lt (h : Stands em x) : x < em.mantissa + 1 := by
  cases h with
  | whole h => linarith
  | low _ h => linarith
  | half h => linarith
  | high _ h => exact h

theorem Stands.shiftRightOne (h : Stands em x) : Stands em.shiftRightOne (x / 2) := by
  rcases em with ⟨m, round, sticky⟩
  rcases Nat.even_or_odd' m with ⟨n, rfl | rfl⟩
  · have hbits : (⟨2 * n, round, sticky⟩ : ExtendedMantissa).shiftRightOne =
        ⟨n, false, round || sticky⟩ := by
      simp [ExtendedMantissa.shiftRightOne]
    rw [hbits]
    cases h with
    | whole h =>
        push_cast at h
        exact .whole (by linarith)
    | low hleast hmost =>
        push_cast at hleast hmost
        exact .low (by linarith) (by linarith)
    | half h =>
        push_cast at h
        exact .low (by linarith) (by linarith)
    | high hleast hmost =>
        push_cast at hleast hmost
        exact .low (by linarith) (by linarith)
  · have hbits : (⟨2 * n + 1, round, sticky⟩ : ExtendedMantissa).shiftRightOne =
        ⟨n, true, round || sticky⟩ := by
      have hhalf : (2 * n + 1) / 2 = n := by omega
      simp [ExtendedMantissa.shiftRightOne, hhalf]
    rw [hbits]
    cases h with
    | whole h =>
        push_cast at h
        exact .half (by linarith)
    | low hleast hmost =>
        push_cast at hleast hmost
        exact .high (by linarith) (by linarith)
    | half h =>
        push_cast at h
        exact .high (by linarith) (by linarith)
    | high hleast hmost =>
        push_cast at hleast hmost
        exact .high (by linarith) (by linarith)

theorem Stands.shiftRight (h : Stands em x) (k : Nat) : Stands (em >>> k) (x / 2 ^ k) := by
  induction k with
  | zero =>
      rw [pow_zero, div_one]
      exact h
  | succ k ih =>
      rw [shiftRight_succ, pow_succ, ← div_div]
      exact ih.shiftRightOne

end Stands

/-- The rest of a division tells on which side of the half the quotient lies. -/
theorem stands_of_fraction (a : Nat) {b : Nat} (hb : 0 < b) :
    Stands (.ofMantissaAndAccuracy (a / b) (accuracyOfFraction (a % b) b)) (a / b : ℚ) := by
  have hpos : (0 : ℚ) < b := Nat.cast_pos.mpr hb
  have hparts : ((a / b : Nat) : ℚ) = a / b - (a % b : Nat) / b := by
    have hsplit : ((b * (a / b) + a % b : Nat) : ℚ) = a := congrArg Nat.cast (Nat.div_add_mod a b)
    push_cast at hsplit
    field_simp
    linarith
  have hrest : ((a % b : Nat) : ℚ) < b := by exact_mod_cast Nat.mod_lt a hb
  unfold accuracyOfFraction
  split
  · rename_i hnone
    rw [hnone, Nat.cast_zero, zero_div, sub_zero] at hparts
    exact .whole hparts.symm
  · rename_i hsome
    have hsome : (0 : ℚ) < (a % b : Nat) := Nat.cast_pos.mpr (Nat.pos_of_ne_zero hsome)
    have hleast : (0 : ℚ) < (a % b : Nat) / b := div_pos hsome hpos
    have hmost : ((a % b : Nat) / b : ℚ) < 1 := (div_lt_one hpos).mpr hrest
    cases hside : compare (2 * (a % b)) b with
    | lt =>
        have hlow : ((a % b : Nat) / b : ℚ) < 1 / 2 := by
          have hlt : ((2 * (a % b) : Nat) : ℚ) < b := by exact_mod_cast compare_lt_iff_lt.mp hside
          push_cast at hlt
          rw [div_lt_div_iff₀ hpos two_pos]
          linarith
        exact .low (by linarith) (by linarith)
    | eq =>
        have hhalf : ((a % b : Nat) / b : ℚ) = 1 / 2 := by
          have heq : ((2 * (a % b) : Nat) : ℚ) = b := by exact_mod_cast compare_eq_iff_eq.mp hside
          push_cast at heq
          rw [div_eq_div_iff hpos.ne' two_ne_zero]
          linarith
        exact .half (by linarith)
    | gt =>
        have hhigh : 1 / 2 < ((a % b : Nat) / b : ℚ) := by
          have hgt : (b : ℚ) < (2 * (a % b) : Nat) := by exact_mod_cast compare_gt_iff_gt.mp hside
          push_cast at hgt
          rw [div_lt_div_iff₀ two_pos hpos]
          linarith
        exact .high (by linarith) (by linarith)

/-!
# The nearest whole number
-/

def NearestEven (x : ℚ) (r : Nat) : Prop :=
  ∀ n : Nat, r ≤ n ↔ x < n + 1 / 2 ∨ x = n + 1 / 2 ∧ n % 2 = 0

theorem Stands.nearestEven {em : ExtendedMantissa} {x : ℚ} (h : Stands em x) :
    NearestEven x em.roundedMantissa := by
  intro n
  rcases em with ⟨m, round, sticky⟩
  have hcast {a b : Nat} (hab : a < b) : (a + 1 : ℚ) ≤ b := by exact_mod_cast hab
  rcases Nat.lt_trichotomy m n with hlt | rfl | hgt
  · have hrounded : (⟨m, round, sticky⟩ : ExtendedMantissa).roundedMantissa ≤ n :=
      (roundedMantissa_le _).trans hlt
    have hless : x < n + 1 / 2 := by linarith [h.lt, hcast hlt]
    exact iff_of_true hrounded (.inl hless)
  · cases h with
    | whole h => exact iff_of_true (Nat.le_refl _) (.inl (by linarith))
    | low _ h => exact iff_of_true (Nat.le_refl _) (.inl h)
    | half h =>
        have hnot : ¬ x < m + 1 / 2 := h.not_lt
        show m + m % 2 ≤ m ↔ _
        rw [or_iff_right hnot, and_iff_right h]
        omega
    | high h _ =>
        have hnot : ¬ (x < m + 1 / 2 ∨ x = m + 1 / 2 ∧ m % 2 = 0) := by
          rintro (hlt | ⟨heq, _⟩) <;> linarith
        exact iff_of_false (Nat.not_succ_le_self m) hnot
  · have hnot : ¬ (x < n + 1 / 2 ∨ x = n + 1 / 2 ∧ n % 2 = 0) := by
      have hle : (m : ℚ) ≤ x := h.le
      rintro (hlt | ⟨heq, _⟩) <;> linarith [hcast hgt]
    refine iff_of_false (not_le_of_gt (lt_of_lt_of_le hgt ?_)) hnot
    cases round <;> cases sticky <;>
      simp [ExtendedMantissa.roundedMantissa, ExtendedMantissa.accuracy,
        Accuracy.roundToNearestEven]

/-- No whole number is nearer. -/
theorem NearestEven.dist_le {x : ℚ} {r : Nat} (h : NearestEven x r) (hx : 0 ≤ x) (k : ℤ) :
    |x - r| ≤ |x - k| := by
  have hmost : x ≤ r + 1 / 2 := by
    rcases (h r).mp (Nat.le_refl r) with hlt | ⟨heq, _⟩
    · exact hlt.le
    · exact heq.le
  have hleast : (r : ℚ) - 1 / 2 ≤ x := by
    cases r with
    | zero =>
        push_cast
        linarith
    | succ r =>
        by_contra hlow
        push_cast at hlow
        exact absurd ((h r).mpr (.inl (by linarith))) (Nat.not_succ_le_self r)
  have hhalf : |x - r| ≤ 1 / 2 := abs_le.mpr ⟨by linarith, by linarith⟩
  rcases lt_trichotomy k r with hlt | rfl | hgt
  · have hapart : (k + 1 : ℚ) ≤ r := by exact_mod_cast hlt
    exact hhalf.trans (le_abs.mpr (.inl (by linarith)))
  · exact le_of_eq rfl
  · have hapart : (r + 1 : ℚ) ≤ k := by exact_mod_cast hgt
    exact hhalf.trans (le_abs.mpr (.inr (by linarith)))

/-!
# Sizes
-/

theorem overflowSize_eq : overflowSize = (2 ^ 53 - 1 / 2) * 2 ^ (971 : Int) := by
  have hgrid : (2 ^ (971 : Int) : ℚ) = 2 * 2 ^ 970 := by
    rw [← pow_succ']
    rfl
  have hpower : (2 ^ 1024 : ℚ) = 2 ^ 54 * 2 ^ 970 := by rw [← pow_add]
  rw [hgrid, overflowSize, hpower]
  generalize (2 ^ 970 : ℚ) = step
  ring

theorem zpow_lt_overflowSize : (2 ^ (1023 : Int) : ℚ) < overflowSize := by
  have hsplit : (2 ^ (1023 : Int) : ℚ) = 2 ^ 52 * 2 ^ (971 : Int) := by
    rw [← zpow_natCast, ← zpow_add₀ (by norm_num)]
    rfl
  have hpos : (0 : ℚ) < 2 ^ (971 : Int) := by positivity
  rw [overflowSize_eq, hsplit]
  exact mul_lt_mul_of_pos_right (by norm_num) hpos

theorem overflowSize_pos : 0 < overflowSize :=
  lt_trans (by positivity) zpow_lt_overflowSize

theorem mul_zpow_lt {w : ℚ} {t s : Int} {n : Nat} (hw : w < 2 ^ n) (h : n + t ≤ s) :
    w * 2 ^ t < 2 ^ s := by
  calc
    w * 2 ^ t < 2 ^ n * 2 ^ t := mul_lt_mul_of_pos_right hw (by positivity)
    _ = 2 ^ (n + t) := by rw [zpow_add₀ (by norm_num), zpow_natCast]
    _ ≤ 2 ^ s := zpow_le_zpow_right₀ (by norm_num) h

theorem le_mul_zpow {w : ℚ} {t s : Int} {n : Nat} (hw : 2 ^ n ≤ w) (h : s ≤ n + t) :
    2 ^ s ≤ w * 2 ^ t := by
  calc
    (2 ^ s : ℚ) ≤ 2 ^ (n + t) := zpow_le_zpow_right₀ (by norm_num) h
    _ = 2 ^ n * 2 ^ t := by rw [zpow_add₀ (by norm_num), zpow_natCast]
    _ ≤ w * 2 ^ t := mul_le_mul_of_nonneg_right hw (by positivity)

/-!
# The power of two that a number is rounded to
-/

/-- A number in units of the power of two that it is rounded to. -/
structure Scaled (w : ℚ) (t : Int) : Prop where
  nonneg : 0 ≤ w
  lt : w < 2 ^ 53
  least : Interval.minExponent ≤ t
  full : Interval.minExponent < t -> 2 ^ 52 ≤ w

namespace Scaled

variable {w : ℚ} {t : Int} {r : Nat}

theorem rounded_le (hr : NearestEven w r) (hw : Scaled w t) : r ≤ 2 ^ 53 := by
  refine (hr (2 ^ 53)).mpr (.inl ?_)
  have hlt := hw.lt
  push_cast
  linarith

theorem le_rounded (hr : NearestEven w r) (hw : Scaled w t) (h : Interval.minExponent < t) :
    2 ^ 52 ≤ r := by
  by_contra hsmall
  have hfull := hw.full h
  rcases (hr (2 ^ 52 - 1)).mp (by omega) with hlt | ⟨heq, _⟩
  · norm_num at hlt hfull
    linarith
  · norm_num at heq hfull
    linarith

/-- What is rounded to the next power of two has all its bits set, and the one after them. -/
theorem lt_overflowSize_iff (hr : NearestEven w r) (hw : Scaled w t) :
    w * 2 ^ t < overflowSize ↔ (r * 2 ^ t : ℚ) < 2 ^ (1024 : Int) := by
  have hminimum : Interval.minExponent = -1074 := rfl
  rcases lt_trichotomy t 971 with hsmall | rfl | hlarge
  · have hrounded : (r : ℚ) < 2 ^ 54 := by
      exact_mod_cast lt_of_le_of_lt (hw.rounded_le hr) (by decide)
    have hsize : w * 2 ^ t < 2 ^ (1023 : Int) := mul_zpow_lt hw.lt (by push_cast; omega)
    exact iff_of_true (hsize.trans zpow_lt_overflowSize)
      (mul_zpow_lt hrounded (by push_cast; omega))
  · have hpow : (0 : ℚ) < 2 ^ (971 : Int) := by positivity
    have hsplit : (2 ^ (1024 : Int) : ℚ) = 2 ^ 53 * 2 ^ (971 : Int) := by
      rw [← zpow_natCast, ← zpow_add₀ (by norm_num)]
      rfl
    rw [overflowSize_eq, hsplit, mul_lt_mul_iff_left₀ hpow, mul_lt_mul_iff_left₀ hpow]
    have hcast : (r : ℚ) < 2 ^ 53 ↔ r ≤ 2 ^ 53 - 1 := by
      rw [Nat.le_sub_one_iff_lt (by decide)]
      exact_mod_cast Iff.rfl
    rw [hcast, hr]
    norm_num
  · have hrounded : (2 ^ 52 : ℚ) ≤ r := by exact_mod_cast hw.le_rounded hr (by omega)
    have hlarge' : (2 ^ (1024 : Int) : ℚ) ≤ w * 2 ^ t :=
      le_mul_zpow (hw.full (by omega)) (by push_cast; omega)
    have hover : overflowSize < 2 ^ (1024 : Int) := by
      have hpos : (0 : ℚ) < 2 ^ 970 := by positivity
      exact sub_lt_self _ hpos
    exact iff_of_false (not_lt_of_ge (hover.le.trans hlarge'))
      (not_lt_of_ge (le_mul_zpow hrounded (by push_cast; omega)))

theorem rounded_eq_zero_iff (hr : NearestEven w r) (hw : Scaled w t) :
    r = 0 ↔ w * 2 ^ t ≤ 2 ^ (-1075 : Int) := by
  have hminimum : Interval.minExponent = -1074 := rfl
  rcases eq_or_lt_of_le hw.least with hleast | hfull
  · have hpow : (0 : ℚ) < 2 ^ (-1074 : Int) := by positivity
    have hhalf : (2 ^ (-1075 : Int) : ℚ) = 1 / 2 * 2 ^ (-1074 : Int) := by
      rw [show (-1075 : Int) = -1 + -1074 from rfl, zpow_add₀ (by norm_num)]
      norm_num
    rw [← hleast, hminimum, hhalf, mul_le_mul_iff_left₀ hpow, ← Nat.le_zero, hr]
    norm_num
    exact le_iff_lt_or_eq.symm
  · have hrounded := hw.le_rounded hr hfull
    have hsize : (2 ^ (-1074 : Int) : ℚ) ≤ w * 2 ^ t := le_mul_zpow (hw.full hfull) (by omega)
    have hless : (2 ^ (-1075 : Int) : ℚ) < 2 ^ (-1074 : Int) :=
      zpow_lt_zpow_right₀ (by norm_num) (by norm_num)
    exact iff_of_false (by omega) (not_le_of_gt (hless.trans_le hsize))

/-- No number with the bits of a significand is nearer. -/
theorem nearest (hr : NearestEven w r) (hw : Scaled w t) {k : ℤ} {p : Int} (hk : |k| < 2 ^ 53)
    (hp : Interval.minExponent ≤ p) :
    |w * 2 ^ t - r * 2 ^ t| ≤ |w * 2 ^ t - k * 2 ^ p| := by
  have hpow : (0 : ℚ) < 2 ^ t := by positivity
  have hscaled (z : ℚ) : |w * 2 ^ t - z * 2 ^ t| = |w - z| * 2 ^ t := by
    rw [← sub_mul, abs_mul, abs_of_pos hpow]
  rcases le_or_gt t p with hcoarse | hfine
  · -- the other number is a whole multiple of the same power of two
    have hmultiple : (k * 2 ^ p : ℚ) = ((k * 2 ^ (p - t).toNat : ℤ) : ℚ) * 2 ^ t := by
      rw [Int.cast_mul, Int.cast_pow, Int.cast_ofNat, mul_assoc, ← zpow_natCast,
        ← zpow_add₀ (by norm_num)]
      congr 2
      omega
    rw [hmultiple, hscaled, hscaled]
    exact mul_le_mul_of_nonneg_right (hr.dist_le hw.nonneg _) hpow.le
  · -- the other number is smaller than the least one with all its bits
    have hfull := hw.full (lt_of_le_of_lt hp hfine)
    have hsmall : (k * 2 ^ p : ℚ) ≤ 2 ^ 52 * 2 ^ t := by
      have hsize : (k : ℚ) < 2 ^ 53 := by exact_mod_cast (abs_lt.mp hk).2
      calc
        (k * 2 ^ p : ℚ) ≤ 2 ^ 53 * 2 ^ p := mul_le_mul_of_nonneg_right hsize.le (by positivity)
        _ = 2 ^ 52 * 2 ^ (p + 1) := by
            rw [zpow_add_one₀ (by norm_num)]
            ring
        _ ≤ 2 ^ 52 * 2 ^ t := by
            apply mul_le_mul_of_nonneg_left _ (by positivity)
            exact zpow_le_zpow_right₀ (by norm_num) hfine
    have hgrid : |w - r| ≤ |w - 2 ^ 52| := by
      have hdist := hr.dist_le hw.nonneg (2 ^ 52)
      rwa [Int.cast_pow, Int.cast_ofNat] at hdist
    calc
      |w * 2 ^ t - r * 2 ^ t| = |w - r| * 2 ^ t := hscaled r
      _ ≤ |w - 2 ^ 52| * 2 ^ t := mul_le_mul_of_nonneg_right hgrid hpow.le
      _ = w * 2 ^ t - 2 ^ 52 * 2 ^ t := by rw [abs_of_nonneg (by linarith), sub_mul]
      _ ≤ w * 2 ^ t - k * 2 ^ p := by linarith
      _ ≤ |w * 2 ^ t - k * 2 ^ p| := le_abs_self _

end Scaled

/-!
# Rounding to the significands of a double
-/

theorem shiftToTargetExponent_small {m : Nat} {q : Int} (hm : m < 2 ^ 53)
    (hleast : Interval.minExponent ≤ q) :
    shiftToTargetExponent Format.binary64 m q .exact = (⟨m, false, false⟩, q) := by
  have hlog : m.log2 ≤ 52 := by
    rcases Nat.eq_zero_or_pos m with rfl | hpos
    · decide
    · exact Nat.le_of_lt_succ ((Nat.log2_lt (by omega)).mpr hm)
  have hshift : (Format.binary64.targetExponent (totalExponent m q) - q).toNat = 0 := by
    rw [targetExponent_total]
    omega
  unfold shiftToTargetExponent shiftToExponent
  simp only [hshift]
  exact Prod.ext rfl (Int.add_zero q)

/-- The first shift leaves a significand with as many bits as a double has. -/
theorem exists_scaled {m : Nat} {q : Int} {accuracy : Accuracy} {x : ℚ}
    (hx : Stands (.ofMantissaAndAccuracy m accuracy) x)
    (hq : q ≤ max (m.log2 + q - 52) Interval.minExponent) :
    ∃ em w t, shiftToTargetExponent Format.binary64 m q accuracy = (em, t) ∧ Stands em w ∧
      Scaled w t ∧ w * 2 ^ t = x * 2 ^ q := by
  obtain ⟨k, hk⟩ : ∃ k : Nat, q + k = max (m.log2 + q - 52) Interval.minExponent :=
    ⟨(max (m.log2 + q - 52) Interval.minExponent - q).toNat, by omega⟩
  have hshift : (max (m.log2 + q - 52) Interval.minExponent - q).toNat = k := by omega
  have hpow : (0 : ℚ) < 2 ^ k := by positivity
  have hmantissa : (ExtendedMantissa.ofMantissaAndAccuracy m accuracy).mantissa = m := by
    cases accuracy with
    | exact => rfl
    | inexact side => cases side <;> rfl
  have hle := hx.le
  have hlt := hx.lt
  rw [hmantissa] at hle hlt
  refine ⟨ExtendedMantissa.ofMantissaAndAccuracy m accuracy >>> k, x / 2 ^ k, q + k, ?_,
    hx.shiftRight k, ?_, ?_⟩
  · unfold shiftToTargetExponent shiftToExponent
    simp only [targetExponent_total, hshift]
  · refine ⟨div_nonneg ((Nat.cast_nonneg m).trans hle) hpow.le, ?_, by omega, ?_⟩
    · have hbits : (m + 1 : ℚ) ≤ 2 ^ 53 * 2 ^ k := by
        rw [← pow_add]
        exact_mod_cast Nat.lt_log2_self.trans_le (Nat.pow_le_pow_right two_pos (by omega))
      rw [div_lt_iff₀ hpow]
      exact hlt.trans_le hbits
    · intro hnormal
      have hbits : (2 ^ 52 * 2 ^ k : ℚ) ≤ m := by
        rw [← pow_add]
        have hlog : 52 + k = m.log2 := by omega
        have hpos : m ≠ 0 := by
          rintro rfl
          rw [Nat.log2_zero] at hlog
          omega
        rw [hlog]
        exact_mod_cast Nat.log2_self_le hpos
      rw [le_div_iff₀ hpow]
      exact hbits.trans hle
  · rw [zpow_add₀ (by norm_num), zpow_natCast, mul_comm (2 ^ q : ℚ), ← mul_assoc,
      div_mul_cancel₀ x hpow.ne']

inductive Sized (sign : Sign) (size : ℚ) : UnpackedFloat -> Prop where
  | zero :
      size = 0 ->
        Sized sign size (.zero sign)
  | finite {m : Nat} {q : Int} (h : Canonical m q) :
      size = m * 2 ^ q ->
        Sized sign size (.finite sign m q h.pos)

/-- Rounding up may give the next power of two, which is shifted once more. -/
theorem sized_roundWithAccuracy {m : Nat} {q t : Int} {accuracy : Accuracy}
    {em : ExtendedMantissa} {w : ℚ}
    (hfirst : shiftToTargetExponent Format.binary64 m q accuracy = (em, t)) (hem : Stands em w)
    (hw : Scaled w t) (sign : Sign) :
    Sized sign (em.roundedMantissa * 2 ^ t)
      (roundWithAccuracy Format.binary64 sign m q accuracy) := by
  have hleast := hw.least
  unfold roundWithAccuracy
  rcases lt_or_eq_of_le (hw.rounded_le hem.nearestEven) with hlt | hcarry
  · simp only [hfirst, shiftToTargetExponent_small hlt hleast]
    split
    · rename_i hzero
      exact .zero (by rw [hzero, Nat.cast_zero, zero_mul])
    · rename_i hpos
      exact .finite ⟨Nat.pos_of_ne_zero hpos, hlt, hleast, hw.le_rounded hem.nearestEven⟩ rfl
  · have hsecond : shiftToTargetExponent Format.binary64 (2 ^ 53) t .exact =
        (⟨2 ^ 52, false, false⟩, t + 1) := by
      have hshifted := shiftToTargetExponent_exact (m := 2 ^ 52) (q := t + 1) (by decide)
        (by decide) (by omega) 1
      have hback : t + 1 - ((1 : Nat) : Int) = t := by omega
      rw [hback] at hshifted
      exact hshifted
    simp only [hfirst, hcarry, hsecond]
    rw [dif_neg (by decide)]
    refine .finite ⟨by decide, by decide, by omega, fun _ => Nat.le_refl _⟩ ?_
    rw [zpow_add_one₀ (by norm_num)]
    push_cast
    ring

/-!
# Packing what was rounded
-/

theorem unpack_pack_infinity (sign : Sign) :
    (Float.Model.pack (.infinity sign)).unpack = .infinity sign := by
  show UnpackedFloat.unpack Format.binary64 (packedInfinity Format.binary64 sign) = .infinity sign
  cases sign with
  | positive => rfl
  | negative => rfl

theorem unpack_pack_of_large {m : Nat} {q : Int} (hm : 0 < m) (hlarge : 971 < q) (sign : Sign) :
    (Float.Model.pack (.finite sign m q hm)).unpack = .infinity sign := by
  have hbias : 2 ^ 11 ≤ (q + (Format.binary64.exponentBias : Int) + (52 : Nat)).toNat + 1 := by
    show 2048 ≤ (q + 1023 + 52).toNat + 1
    omega
  have hpack : UnpackedFloat.pack Format.binary64 (.finite sign m q hm) =
      packedInfinity Format.binary64 sign := by
    unfold UnpackedFloat.pack
    simp only
    exact if_pos hbias
  show UnpackedFloat.unpack Format.binary64
    (UnpackedFloat.pack Format.binary64 (.finite sign m q hm)) = _
  rw [hpack]
  exact unpack_pack_infinity sign

/-- Without all its bits a significand has the least exponent, which is packed as zeros. -/
theorem unpack_pack_subnormal {m : Nat} (hm : 0 < m) (hlt : m < 2 ^ 52) (sign : Sign) :
    (Float.Model.pack (.finite sign m Interval.minExponent hm)).unpack =
      .finite sign m Interval.minExponent hm := by
  have hlog : m.log2 < 52 := (Nat.log2_lt (by omega)).mpr hlt
  have hpack : UnpackedFloat.pack Format.binary64 (.finite sign m Interval.minExponent hm) =
      packComponents Format.binary64 sign 0#11 (BitVec.ofNat 52 m) := by
    have hbits : m.log2 + 1 ≠ Format.binary64.mantissaBits := by
      show m.log2 + 1 ≠ 53
      omega
    unfold UnpackedFloat.pack
    simp only
    rw [if_neg (by decide), if_neg hbits]
  have hmantissa : (BitVec.ofNat 52 m).toNat = m := by
    rw [BitVec.toNat_ofNat]
    omega
  have hnonzero : BitVec.ofNat 52 m ≠ 0#52 := by
    intro heq
    rw [heq] at hmantissa
    change 0 = m at hmantissa
    omega
  show UnpackedFloat.unpack Format.binary64
    (UnpackedFloat.pack Format.binary64 (.finite sign m Interval.minExponent hm)) = _
  rw [hpack]
  unfold UnpackedFloat.unpack
  simp only [unpackExponent_packComponents, unpackMantissa_packComponents,
    unpackSign_packComponents, Sign.ofBitVec_toBitVec]
  rw [if_neg (by decide), if_pos trivial, dif_neg hnonzero]
  congr 1

theorem unpack_pack_of_canonical {m : Nat} {q : Int} (h : Canonical m q) (hmost : q ≤ 971)
    (sign : Sign) :
    (Float.Model.pack (.finite sign m q h.pos)).unpack = .finite sign m q h.pos := by
  by_cases hfull : 2 ^ 52 ≤ m
  · exact unpack_pack_full hfull h.lt h.least hmost sign
  · obtain rfl : q = Interval.minExponent := by
      by_contra hne
      exact hfull (h.full (lt_of_le_of_ne h.least (Ne.symm hne)))
    exact unpack_pack_subnormal h.pos (by omega) sign

theorem size_lt_zpow_iff {m : Nat} {q : Int} (h : Canonical m q) :
    (m * 2 ^ q : ℚ) < 2 ^ (1024 : Int) ↔ q ≤ 971 := by
  have hminimum : Interval.minExponent = -1074 := rfl
  constructor
  · intro hsize
    by_contra hlarge
    have hfull : (2 ^ 52 : ℚ) ≤ m := by exact_mod_cast h.full (by omega)
    exact absurd hsize (not_lt_of_ge (le_mul_zpow hfull (by push_cast; omega)))
  · intro hmost
    have hlt : (m : ℚ) < 2 ^ 53 := by exact_mod_cast h.lt
    exact mul_zpow_lt hlt (by push_cast; omega)

theorem unpack_pack_of_sized {sign : Sign} {size : ℚ} {u : UnpackedFloat}
    (hu : Sized sign size u) :
    (Float.Model.pack u).unpack = if size < 2 ^ (1024 : Int) then u else .infinity sign := by
  cases hu with
  | zero hzero =>
      rw [if_pos (by rw [hzero]; positivity)]
      cases sign <;> rfl
  | finite h hsize =>
      rw [hsize]
      split
      · rename_i hmost
        exact unpack_pack_of_canonical h ((size_lt_zpow_iff h).mp hmost) sign
      · rename_i hlarge
        rw [size_lt_zpow_iff h] at hlarge
        exact unpack_pack_of_large h.pos (by omega) sign

/-!
# What rounding does
-/

def signed (sign : Sign) (size : ℚ) : ℚ :=
  match sign with
  | .positive => size
  | .negative => -size

theorem abs_signed (sign : Sign) {size : ℚ} (h : 0 ≤ size) : |signed sign size| = size := by
  cases sign with
  | positive => exact abs_of_nonneg h
  | negative => exact (abs_neg size).trans (abs_of_nonneg h)

theorem apply_mul (sign : Sign) (m : Nat) (q : Int) :
    ((sign.apply m : ℤ) * 2 ^ q : ℚ) = signed sign (m * 2 ^ q) := by
  cases sign with
  | positive => rfl
  | negative =>
      show ((-(m : ℤ) : ℤ) : ℚ) * 2 ^ q = -(m * 2 ^ q)
      rw [Int.cast_neg, Int.cast_natCast, neg_mul]

/-- What a number is rounded to, before it is packed. -/
def Rounds (v : ℚ) (u : UnpackedFloat) : Prop :=
  ∃ sign w t r, v = signed sign (w * 2 ^ t) ∧ Scaled w t ∧ NearestEven w r ∧
    Sized sign (r * 2 ^ t) u

theorem Scaled.size_nonneg {w : ℚ} {t : Int} (h : Scaled w t) : 0 ≤ w * 2 ^ t :=
  mul_nonneg h.nonneg (by positivity)

theorem nearestEven_self (m : Nat) : NearestEven m m :=
  (Stands.whole (m := m) rfl).nearestEven

theorem rounds_zero (sign : Sign) : Rounds 0 (.zero sign) := by
  have hzero : signed sign 0 = 0 := by
    cases sign with
    | positive => rfl
    | negative => exact neg_zero
  refine ⟨sign, 0, Interval.minExponent, 0, ?_, ⟨le_rfl, by norm_num, le_rfl, ?_⟩,
    nearestEven_self 0, .zero (by rw [Nat.cast_zero, zero_mul])⟩
  · rw [zero_mul, hzero]
  · exact fun h => absurd h (lt_irrefl _)

theorem rounds_canonical {m : Nat} {q : Int} (h : Canonical m q) (sign : Sign) :
    Rounds (signed sign (m * 2 ^ q)) (.finite sign m q h.pos) := by
  have hlt : (m : ℚ) < 2 ^ 53 := by exact_mod_cast h.lt
  refine ⟨sign, m, q, m, rfl, ⟨Nat.cast_nonneg m, hlt, h.least, ?_⟩, nearestEven_self m,
    .finite h rfl⟩
  intro hnormal
  exact_mod_cast h.full hnormal

theorem rounds_roundWithAccuracy {m : Nat} {q : Int} {accuracy : Accuracy} {x : ℚ}
    (hx : Stands (.ofMantissaAndAccuracy m accuracy) x)
    (hq : q ≤ max (m.log2 + q - 52) Interval.minExponent) (sign : Sign) :
    Rounds (signed sign (x * 2 ^ q))
      (roundWithAccuracy Format.binary64 sign m q accuracy) := by
  obtain ⟨em, w, t, hfirst, hem, hw, hsize⟩ := exists_scaled hx hq
  rw [← hsize]
  exact ⟨sign, w, t, _, rfl, hw, hem.nearestEven, sized_roundWithAccuracy hfirst hem hw sign⟩

/-- Rounding begins by making the exponent small enough. -/
theorem rounds_round {m : Nat} (hm : 0 < m) (q : Int) (sign : Sign) :
    Rounds (signed sign (m * 2 ^ q)) (UnpackedFloat.round Format.binary64 sign m q) := by
  obtain ⟨j, hj⟩ : ∃ j : Nat, j = (q - max (m.log2 + q - 52) Interval.minExponent).toNat :=
    ⟨_, rfl⟩
  have hdecrease : decreaseExponent m q (Format.binary64.targetExponent (totalExponent m q)) =
      (m * 2 ^ j, q - j) := by
    rw [targetExponent_total]
    unfold decreaseExponent
    simp only [← hj]
    rw [Nat.shiftLeft_eq]
  have hlog := log2_mul_two_pow hm j
  have hsame : ((m * 2 ^ j : Nat) * 2 ^ (q - j) : ℚ) = m * 2 ^ q := by
    rw [Nat.cast_mul, Nat.cast_pow, mul_assoc, Nat.cast_ofNat, ← zpow_natCast,
      ← zpow_add₀ (by norm_num)]
    congr 2
    omega
  unfold UnpackedFloat.round
  simp only [hdecrease]
  rw [← hsame]
  exact rounds_roundWithAccuracy (.whole rfl) (by omega) sign

theorem rounds_normalize (z e : Int) :
    Rounds (z * 2 ^ e) (UnpackedFloat.normalize Format.binary64 z e .positive) := by
  unfold UnpackedFloat.normalize
  split
  · rename_i hneg
    have hz : z < 0 := compare_lt_iff_lt.mp hneg
    have hsize : (z : ℚ) * 2 ^ e = signed .negative ((-z).toNat * 2 ^ e) := by
      have hcast : (((-z).toNat : ℤ) : ℚ) = -z := by
        rw [Int.toNat_of_nonneg (by omega), Int.cast_neg]
      rw [Int.cast_natCast] at hcast
      rw [signed, hcast, neg_mul, neg_neg]
    rw [hsize]
    exact rounds_round (by omega) e .negative
  · rename_i hzero
    rw [compare_eq_iff_eq.mp hzero, Int.cast_zero, zero_mul]
    exact rounds_zero .positive
  · rename_i hpos
    have hz : 0 < z := compare_gt_iff_gt.mp hpos
    have hsize : (z : ℚ) * 2 ^ e = signed .positive (z.toNat * 2 ^ e) := by
      have hcast : ((z.toNat : ℤ) : ℚ) = z := by rw [Int.toNat_of_nonneg hz.le]
      rw [Int.cast_natCast] at hcast
      rw [signed, hcast]
    rw [hsize]
    exact rounds_round (by omega) e .positive

section Rounds

variable {v : ℚ} {u : UnpackedFloat}

/-- What is rounded is finite if and only if it is smaller than the least size out of range. -/
theorem Rounds.isFinite_iff (h : Rounds v u) :
    (Float.Model.pack u).unpack.isFinite = true ↔ |v| < overflowSize := by
  obtain ⟨sign, w, t, r, rfl, hw, hr, hu⟩ := h
  rw [abs_signed sign hw.size_nonneg, hw.lt_overflowSize_iff hr, unpack_pack_of_sized hu]
  split
  · rename_i hsmall
    refine iff_of_true ?_ hsmall
    cases hu <;> rfl
  · rename_i hlarge
    exact iff_of_false Bool.false_ne_true hlarge

theorem Rounds.isNaN (h : Rounds v u) : (Float.Model.pack u).unpack.isNaN = false := by
  obtain ⟨sign, w, t, r, _, _, _, hu⟩ := h
  rw [unpack_pack_of_sized hu]
  split
  · cases hu <;> rfl
  · rfl

end Rounds

end Decimal
end Reckoner
