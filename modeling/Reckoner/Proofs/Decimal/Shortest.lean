import Reckoner.Proofs.Decimal.Digits
import Reckoner.Proofs.Decimal.Interval

/-!
# The shortest decimal rounds back

The search for the shortest decimal ends at a point of the rounding interval.  On the
grid of the seventeenth digit the next point above the middle is always inside, and
the search reaches that grid.
-/

namespace Reckoner
namespace Decimal
namespace Interval

/-!
# One grid
-/

theorem holds_of_nearest? {i : Interval} {n : Nat} (h : i.nearest? = some n) :
    i.holds n = true := by
  unfold nearest? at h
  simp only at h
  split at h
  · rename_i hbelow habove
    split at h
    · cases h
      exact hbelow
    · split at h
      · split at h
        · cases h
          exact hbelow
        · cases h
          exact habove
      · cases h
        exact habove
  · rename_i hbelow _
    cases h
    exact hbelow
  · rename_i _ habove
    cases h
    exact habove
  · cases h

theorem isSome_nearest? {i : Interval} (hdenominator : 0 < i.denominator)
    (hlow : i.low ≤ i.middle) (hwide : i.middle + i.denominator < i.high) :
    i.nearest?.isSome = true := by
  have hnext : i.holds (i.middle / i.denominator + 1) = true := by
    have hfloor := Nat.div_mul_le_self i.middle i.denominator
    have hceiling := Nat.lt_div_mul_add hdenominator (a := i.middle)
    have hpoint : (i.middle / i.denominator + 1) * i.denominator =
        i.middle / i.denominator * i.denominator + i.denominator := Nat.succ_mul _ _
    unfold holds
    rw [hpoint]
    cases i.closed with
    | true =>
        simp only [if_true, Bool.and_eq_true, decide_eq_true_eq]
        omega
    | false =>
        simp only [Bool.false_eq_true, if_false, Bool.and_eq_true, decide_eq_true_eq]
        omega
  unfold nearest?
  simp only
  rw [hnext]
  cases i.holds (i.middle / i.denominator) with
  | true =>
      simp only
      split
      · rfl
      · split <;> rfl
  | false => rfl

/-!
# All grids
-/

theorem nearest?_search {i : Interval} {grids : Nat} {g : Int}
    (h : ∃ k : Nat, k < grids ∧ (i.scaleDown (g - k)).nearest?.isSome = true) :
    (i.scaleDown (i.search grids g).2).nearest? = some (i.search grids g).1 := by
  induction grids generalizing g with
  | zero =>
      rcases h with ⟨k, hk, _⟩
      omega
  | succ grids ih =>
      unfold search
      cases hhere : (i.scaleDown g).nearest? with
      | some n => exact hhere
      | none =>
          apply ih
          rcases h with ⟨k, hk, hfound⟩
          cases k with
          | zero =>
              rw [Int.natCast_zero, Int.sub_zero, hhere] at hfound
              cases hfound
          | succ k =>
              refine ⟨k, by omega, ?_⟩
              have hgrid : g - 1 - (k : Int) = g - ((k + 1 : Nat) : Int) := by omega
              rw [hgrid]
              exact hfound

theorem isSome_nearest?_scaleDown {i : Interval} {g : Int} (hdenominator : 0 < i.denominator)
    (hlow : i.low ≤ i.middle) (hwide : (i.middle + i.denominator * 10 ^ g : ℚ) < i.high) :
    (i.scaleDown g).nearest?.isSome = true := by
  have hup : (0 : ℚ) < 10 ^ (-g).toNat := by positivity
  apply isSome_nearest?
  · show 0 < i.denominator * 10 ^ g.toNat
    positivity
  · exact Nat.mul_le_mul_right _ hlow
  · show i.middle * 10 ^ (-g).toNat + i.denominator * 10 ^ g.toNat <
      i.high * 10 ^ (-g).toNat
    rw [zpow_eq_div (by norm_num) g, ← mul_div_assoc, ← lt_sub_iff_add_lt', div_lt_iff₀ hup,
      sub_mul, lt_sub_iff_add_lt'] at hwide
    exact_mod_cast hwide

theorem pow_ceiling_le {i : Interval} (hdenominator : 0 < i.denominator)
    (hmiddle : 0 < i.middle) : (10 : ℚ) ^ (i.ceiling - 1) * i.denominator ≤ i.middle := by
  unfold ceiling
  split
  · rename_i hle
    have hpos : 0 < i.middle / i.denominator := Nat.div_pos hle hdenominator
    have hdigits := pow_length_toDigits_le hpos
    have hlength : 0 < (Nat.toDigits 10 (i.middle / i.denominator)).length :=
      Nat.length_toDigits_pos
    generalize (Nat.toDigits 10 (i.middle / i.denominator)).length = length at *
    have hexponent : (length : Int) - 1 = ((length - 1 : Nat) : Int) := by omega
    rw [hexponent, zpow_natCast]
    have hbound : 10 ^ (length - 1) * i.denominator ≤ i.middle :=
      le_trans (Nat.mul_le_mul_right _ hdigits) (Nat.div_mul_le_self _ _)
    exact_mod_cast hbound
  · have hdigits := lt_pow_length_toDigits (i.denominator / i.middle)
    generalize (Nat.toDigits 10 (i.denominator / i.middle)).length = length at *
    have hexponent : 1 - (length : Int) - 1 = -(length : Int) := by omega
    have hbound : i.denominator < i.middle * 10 ^ length := by
      rw [mul_comm]
      exact (Nat.div_lt_iff_lt_mul hmiddle).mp hdigits
    have hcast : (i.denominator : ℚ) ≤ i.middle * 10 ^ length := by exact_mod_cast hbound.le
    rw [hexponent, zpow_neg, zpow_natCast, inv_mul_le_iff₀ (by positivity), mul_comm]
    exact hcast

/-!
# The interval of a double
-/

theorem denominator_ofBinary_pos (m : Nat) (q : Int) : 0 < (ofBinary m q).denominator := by
  show 0 < 4 * 2 ^ (-q).toNat
  positivity

theorem low_ofBinary_le (m : Nat) (q : Int) : (ofBinary m q).low ≤ (ofBinary m q).middle :=
  Nat.mul_le_mul_right _ (Nat.sub_le _ _)

theorem middle_ofBinary_pos {m : Nat} (hm : 0 < m) (q : Int) : 0 < (ofBinary m q).middle := by
  show 0 < 4 * m * 2 ^ q.toNat
  positivity

theorem seventeenth_wide {m : Nat} {q : Int} (hc : Canonical m q) :
    ((ofBinary m q).middle + (ofBinary m q).denominator *
      10 ^ ((ofBinary m q).ceiling - ((18 : Nat) : Int)) : ℚ) < (ofBinary m q).high := by
  have hceiling := pow_ceiling_le (denominator_ofBinary_pos m q) (middle_ofBinary_pos hc.pos q)
  have hgrid : (10 : ℚ) ^ ((ofBinary m q).ceiling - 1) =
      10 ^ ((ofBinary m q).ceiling - ((18 : Nat) : Int)) * 10 ^ 17 := by
    rw [← zpow_natCast (10 : ℚ) 17, ← zpow_add₀ (by norm_num)]
    congr 1
    push_cast
    ring
  have hup : (0 : ℚ) < 2 ^ q.toNat := by positivity
  have hmiddle : ((ofBinary m q).middle : ℚ) = 4 * m * 2 ^ q.toNat := by
    show ((4 * m * 2 ^ q.toNat : Nat) : ℚ) = _
    push_cast
    rfl
  have hhigh : ((ofBinary m q).high : ℚ) = (4 * m + 2) * 2 ^ q.toNat := by
    show (((4 * m + 2) * 2 ^ q.toNat : Nat) : ℚ) = _
    push_cast
    rfl
  have hbits : (m : ℚ) * 2 ^ q.toNat ≤ 2 ^ 53 * 2 ^ q.toNat := by
    apply mul_le_mul_of_nonneg_right _ hup.le
    exact_mod_cast hc.lt.le
  rw [hgrid, hmiddle] at hceiling
  rw [hmiddle, hhigh]
  -- Seventeen digits are more than fifty-three bits.
  linarith

theorem covers_search {m : Nat} {q : Int} (hc : Canonical m q) :
    (ofBinary m q).Covers
      (((ofBinary m q).search 19 (ofBinary m q).ceiling).1 *
        10 ^ ((ofBinary m q).search 19 (ofBinary m q).ceiling).2) := by
  rw [← covers_scaleDown, ← holds_iff_covers]
  apply holds_of_nearest?
  apply nearest?_search
  refine ⟨18, by decide, ?_⟩
  exact isSome_nearest?_scaleDown (denominator_ofBinary_pos m q) (low_ofBinary_le m q)
    (seventeenth_wide hc)

end Interval

/-!
# The shortest decimal
-/

theorem stripZeros_value (zeros n : Nat) (g : Int) :
    ((stripZeros zeros n g).1 * 10 ^ (stripZeros zeros n g).2 : ℚ) = n * 10 ^ g := by
  induction zeros generalizing n g with
  | zero => rfl
  | succ zeros ih =>
      unfold stripZeros
      split
      · rename_i hzero
        have hn : n = n / 10 * 10 := by omega
        calc
          ((stripZeros zeros (n / 10) (g + 1)).1 *
              10 ^ (stripZeros zeros (n / 10) (g + 1)).2 : ℚ)
              = (n / 10 : Nat) * 10 ^ (g + 1) := ih (n / 10) (g + 1)
          _ = (n / 10 * 10 : Nat) * 10 ^ g := by
              rw [zpow_add_one₀ (by norm_num)]
              push_cast
              ring
          _ = n * 10 ^ g := by rw [← hn]
      · rfl

theorem covers_shortest {m : Nat} {q : Int} (hc : Canonical m q) :
    (Interval.ofBinary m q).Covers ((shortest m q).1 * 10 ^ (shortest m q).2) := by
  unfold shortest
  rw [stripZeros_value]
  exact Interval.covers_search hc

end Decimal
end Reckoner
