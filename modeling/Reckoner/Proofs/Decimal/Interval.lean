import Reckoner.Proofs.Decimal.Double

/-!
# Rounding intervals

The numbers that round to a positive double fill an interval.  The intervals of two
doubles have no number in common: they meet in an end at most, and one of two
neighbours has an odd significand, so that the end does not belong to its interval.
-/

namespace Reckoner
namespace Decimal

theorem zpow_eq_div {b : ℚ} (hb : b ≠ 0) (g : Int) :
    b ^ g = b ^ g.toNat / b ^ (-g).toNat := by
  rw [← zpow_natCast, ← zpow_natCast, ← zpow_sub₀ hb]
  congr 1
  omega

namespace Interval

def Covers (i : Interval) (v : ℚ) : Prop :=
  if i.closed then
    i.low ≤ v * i.denominator ∧ v * i.denominator ≤ i.high
  else
    i.low < v * i.denominator ∧ v * i.denominator < i.high

theorem holds_iff_covers (i : Interval) (n : Nat) : i.holds n = true ↔ i.Covers n := by
  unfold holds Covers
  cases i.closed with
  | true =>
      simp only [if_true, Bool.and_eq_true, decide_eq_true_eq]
      norm_cast
  | false =>
      simp only [Bool.false_eq_true, if_false, Bool.and_eq_true, decide_eq_true_eq]
      norm_cast

theorem covers_scaleDown (i : Interval) (g : Int) (v : ℚ) :
    (i.scaleDown g).Covers v ↔ i.Covers (v * 10 ^ g) := by
  have hup : (0 : ℚ) < 10 ^ (-g).toNat := by positivity
  have hpoint : v * 10 ^ g * i.denominator =
      v * (i.denominator * 10 ^ g.toNat) / 10 ^ (-g).toNat := by
    rw [zpow_eq_div (by norm_num) g]
    ring
  unfold Covers scaleDown
  simp only [Nat.pow_eq, Nat.cast_mul, Nat.cast_pow, Nat.cast_ofNat]
  rw [hpoint, le_div_iff₀ hup, div_le_iff₀ hup, lt_div_iff₀ hup, div_lt_iff₀ hup]

/-!
# The ends of an interval
-/

/-- The distance to the neighbour below, in quarters. -/
def below (m : Nat) (q : Int) : Nat :=
  if m = 0x10000000000000 ∧ minExponent < q then 1 else 2

theorem below_le (m : Nat) (q : Int) : below m q ≤ 2 := by
  unfold below
  split
  · exact Nat.le_succ 1
  · exact Nat.le_refl 2

theorem covers_ofBinary {m : Nat} {q : Int} {v : ℚ} (hm : 0 < m) :
    (ofBinary m q).Covers v ↔
      if m % 2 = 0 then
        (4 * m - below m q : ℚ) * 2 ^ q ≤ 4 * v ∧ 4 * v ≤ (4 * m + 2) * 2 ^ q
      else
        (4 * m - below m q : ℚ) * 2 ^ q < 4 * v ∧ 4 * v < (4 * m + 2) * 2 ^ q := by
  have hdown : (0 : ℚ) < 2 ^ (-q).toNat := by positivity
  have hbelow := below_le m q
  have hlow : ((4 * m - below m q : Nat) : ℚ) = 4 * m - below m q := by
    rw [Nat.cast_sub (by omega)]
    push_cast
    rfl
  have hpoint : v * (4 * 2 ^ (-q).toNat) = 4 * v * 2 ^ (-q).toNat := by ring
  rw [zpow_eq_div (by norm_num) q]
  unfold Covers ofBinary
  simp only [decide_eq_true_eq, Nat.pow_eq]
  rw [← below]
  push_cast
  rw [hlow, hpoint]
  simp only [← mul_div_assoc]
  rw [le_div_iff₀ hdown, div_le_iff₀ hdown, lt_div_iff₀ hdown, div_lt_iff₀ hdown]

theorem le_of_covers {m : Nat} {q : Int} {v : ℚ} (hm : 0 < m) (h : (ofBinary m q).Covers v) :
    (4 * m - below m q : ℚ) * 2 ^ q ≤ 4 * v ∧ 4 * v ≤ (4 * m + 2) * 2 ^ q := by
  rw [covers_ofBinary hm] at h
  split at h
  · exact h
  · exact ⟨h.1.le, h.2.le⟩

theorem lt_of_covers {m : Nat} {q : Int} {v : ℚ} (hodd : m % 2 = 1)
    (h : (ofBinary m q).Covers v) :
    (4 * m - below m q : ℚ) * 2 ^ q < 4 * v ∧ 4 * v < (4 * m + 2) * 2 ^ q := by
  rw [covers_ofBinary (by omega), if_neg (by omega)] at h
  exact h

theorem pos_of_covers {m : Nat} {q : Int} {v : ℚ} (hm : 0 < m) (h : (ofBinary m q).Covers v) :
    0 < v := by
  have hlow := (le_of_covers hm h).1
  have hbelow : (below m q : ℚ) ≤ 2 := by exact_mod_cast below_le m q
  have hone : (1 : ℚ) ≤ m := by exact_mod_cast hm
  have hpos : (0 : ℚ) < (4 * m - below m q) * 2 ^ q := by
    apply mul_pos
    · linarith
    · positivity
  linarith

/-!
# Intervals of different doubles
-/

theorem not_covers_of_apart {m m' : Nat} {q q' : Int} {v : ℚ} (hm : 0 < m) (hm' : 0 < m')
    (hends : ((4 * m + 2) * 2 ^ q : ℚ) ≤ (4 * m' - below m' q') * 2 ^ q')
    (hopen : m % 2 = 1 ∨ m' % 2 = 1 ∨
      ((4 * m + 2) * 2 ^ q : ℚ) < (4 * m' - below m' q') * 2 ^ q')
    (h : (ofBinary m q).Covers v) : ¬ (ofBinary m' q').Covers v := by
  intro h'
  have hle := (le_of_covers hm h).2
  have hle' := (le_of_covers hm' h').1
  rcases hopen with hodd | hodd | hstrict
  · have hlt := (lt_of_covers hodd h).2
    linarith
  · have hlt := (lt_of_covers hodd h').1
    linarith
  · linarith

theorem not_covers_of_lt {m m' : Nat} {q : Int} {v : ℚ} (hm : 0 < m) (hlt : m < m')
    (h : (ofBinary m q).Covers v) : ¬ (ofBinary m' q).Covers v := by
  have hpow : (0 : ℚ) < 2 ^ q := by positivity
  have hbelow : (below m' q : ℚ) ≤ 2 := by exact_mod_cast below_le m' q
  apply not_covers_of_apart hm (by omega) ?_ ?_ h
  · have hnext : (m : ℚ) + 1 ≤ m' := by exact_mod_cast hlt
    apply mul_le_mul_of_nonneg_right _ hpow.le
    linarith
  · rcases Nat.lt_or_ge (m + 1) m' with hfar | hnear
    · have hnext : (m : ℚ) + 2 ≤ m' := by exact_mod_cast hfar
      refine Or.inr (Or.inr (mul_lt_mul_of_pos_right ?_ hpow))
      linarith
    · omega

theorem not_covers_of_lt_exponent {m m' : Nat} {q q' : Int} {v : ℚ} (hc : Canonical m q)
    (hc' : Canonical m' q') (hlt : q < q') (h : (ofBinary m q).Covers v) :
    ¬ (ofBinary m' q').Covers v := by
  have hpow : (0 : ℚ) < 2 ^ q := by positivity
  have hpow' : (2 : ℚ) * 2 ^ q ≤ 2 ^ q' := by
    rw [mul_comm, ← zpow_add_one₀ (by norm_num)]
    exact zpow_le_zpow_right₀ (by norm_num) hlt
  have hleast : minExponent < q' := lt_of_le_of_lt hc.least hlt
  have hfull := hc'.full hleast
  have hbound := hc.lt
  -- The second interval begins no lower than the neighbour of the greatest significand below.
  have hlow : (2 ^ 54 - 1 : ℚ) ≤ 4 * m' - below m' q' := by
    have hbelow : 2 ^ 54 + below m' q' ≤ 4 * m' + 1 := by
      unfold below
      split <;> omega
    have hcast : (2 ^ 54 + below m' q' : ℚ) ≤ 4 * m' + 1 := by exact_mod_cast hbelow
    linarith
  have hend : ((2 ^ 54 - 1) * (2 * 2 ^ q) : ℚ) ≤ (4 * m' - below m' q') * 2 ^ q' := by
    apply mul_le_mul hlow hpow' (by positivity)
    linarith
  have hbegin : ((2 ^ 54 - 1) * (2 * 2 ^ q) : ℚ) = (2 ^ 55 - 2) * 2 ^ q := by ring
  rw [hbegin] at hend
  apply not_covers_of_apart hc.pos hc'.pos ?_ ?_ h
  · refine le_trans (mul_le_mul_of_nonneg_right ?_ hpow.le) hend
    have hcast : (m : ℚ) + 1 ≤ 2 ^ 53 := by exact_mod_cast hbound
    linarith
  · rcases Nat.lt_or_ge (m + 1) (2 ^ 53) with hfar | hnear
    · refine Or.inr (Or.inr (lt_of_lt_of_le (mul_lt_mul_of_pos_right ?_ hpow) hend))
      have hcast : (m : ℚ) + 2 ≤ 2 ^ 53 := by exact_mod_cast hfar
      linarith
    · omega

theorem eq_of_covers {m m' : Nat} {q q' : Int} {v : ℚ} (hc : Canonical m q)
    (hc' : Canonical m' q') (h : (ofBinary m q).Covers v) (h' : (ofBinary m' q').Covers v) :
    m = m' ∧ q = q' := by
  rcases lt_trichotomy q q' with hlt | heq | hgt
  · exact absurd h' (not_covers_of_lt_exponent hc hc' hlt h)
  · subst heq
    rcases lt_trichotomy m m' with hlt | heq | hgt
    · exact absurd h' (not_covers_of_lt hc.pos hlt h)
    · exact ⟨heq, rfl⟩
    · exact absurd h (not_covers_of_lt hc'.pos hgt h')
  · exact absurd h (not_covers_of_lt_exponent hc' hc hgt h')

end Interval

/-!
# Doubles
-/

section Doubles

open Float.Model UnpackedFloat

def RoundsTo (negative : Bool) (v : ℚ) (x : Float) : Prop :=
  match x.toModel.unpack with
  | .zero sign => negative = (sign == .negative) ∧ v = 0
  | .finite sign m q _ => negative = (sign == .negative) ∧ (Interval.ofBinary m q).Covers v
  | _ => False

variable {negative : Bool} {v : ℚ} {x y : Float}

theorem roundsTo_cases (h : RoundsTo negative v x) :
    (∃ sign, x.toModel.unpack = .zero sign ∧ negative = (sign == .negative) ∧ v = 0) ∨
      (∃ sign m q hm, x.toModel.unpack = .finite sign m q hm ∧ Canonical m q ∧
        negative = (sign == .negative) ∧ (Interval.ofBinary m q).Covers v) := by
  unfold RoundsTo at h
  split at h
  · rename_i sign hunpack
    exact Or.inl ⟨sign, hunpack, h⟩
  · rename_i sign m q hm hunpack
    exact Or.inr ⟨sign, m, q, hm, hunpack, canonical_of_unpack hunpack, h⟩
  · exact h.elim

theorem sign_eq_of_beq {s t : Sign} (h : (s == .negative) = (t == .negative)) : s = t := by
  cases s with
  | negative =>
      cases t with
      | negative => rfl
      | positive => cases h
  | positive =>
      cases t with
      | negative => cases h
      | positive => rfl

theorem eq_of_roundsTo (hx : RoundsTo negative v x) (hy : RoundsTo negative v y) : x = y := by
  apply eq_of_unpack
  rcases roundsTo_cases hx with
    ⟨sign, hunpack, hsign, hzero⟩ | ⟨sign, m, q, hm, hunpack, hc, hsign, hcovers⟩
  · rcases roundsTo_cases hy with
      ⟨sign', hunpack', hsign', _⟩ | ⟨_, m', q', _, _, hc', _, hcovers'⟩
    · rw [hunpack, hunpack', sign_eq_of_beq (hsign.symm.trans hsign')]
    · exact absurd hzero (Interval.pos_of_covers hc'.pos hcovers').ne'
  · rcases roundsTo_cases hy with
      ⟨_, _, _, hzero⟩ | ⟨sign', m', q', _, hunpack', hc', hsign', hcovers'⟩
    · exact absurd hzero (Interval.pos_of_covers hc.pos hcovers).ne'
    · obtain ⟨rfl, rfl⟩ := Interval.eq_of_covers hc hc' hcovers hcovers'
      rw [hunpack, hunpack', sign_eq_of_beq (hsign.symm.trans hsign')]

end Doubles

end Decimal
end Reckoner
