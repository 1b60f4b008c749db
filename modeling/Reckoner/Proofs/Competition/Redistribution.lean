import Reckoner.Proofs.Competition.Conservation

/-!
# Where scores move to

Claimed scores that are not negative are attenuated to no more than the greatest
multiplier makes of their sum, and to no less than the least one does.  So a transfer
that keeps the sum moves scores towards greater multipliers: under the greatest one a
score does not fall, under the least one it does not rise, and of two scores the one
under the greater multiplier gains on the other.  The sign of the multipliers does not
matter.
-/

namespace Reckoner
namespace Competition

universe u

open Quantity

variable {K : Type u} [Field K] [LinearOrder K]

/-!
# Factors
-/

section Factors

variable [IsStrictOrderedRing K] {before after m : K}

theorem one_le_mul_div (hafter : 0 < after) (h : after ≤ before * m) :
    1 ≤ m * (before / after) := by
  rw [← mul_div_assoc, one_le_div hafter, mul_comm]
  exact h

theorem mul_div_le_one (hafter : 0 < after) (h : before * m ≤ after) :
    m * (before / after) ≤ 1 := by
  rw [← mul_div_assoc, div_le_one hafter, mul_comm]
  exact h

end Factors

/-!
# Claimed scores and their sums
-/

variable [Pow K K] (c : Competition K) (keys : Table (List String)) {scores : Table K}

theorem get?_transfer_of_mem_claimed (hscores : scores.keys.Nodup) {entry : String × K}
    (hentry : entry ∈ c.claimed keys scores) :
    (c.transfer keys scores).get? entry.1 = some (entry.2 * (c.governing keys entry.1 *
      scaleBetween (mass (c.claimed keys scores)) (mass (c.attenuated keys scores)))) := by
  rcases List.mem_filter.mp hentry with ⟨hmem, hgoverned⟩
  rw [get?_transfer, Table.get?_of_mem hscores hmem, Option.map_some, move, if_pos hgoverned,
    scaleOf_claims c keys hscores]
  rfl

theorem mass_attenuated : mass (c.attenuated keys scores) =
    ((c.claimed keys scores).map fun entry => entry.2 * c.governing keys entry.1).sum := by
  unfold mass Table.values attenuated
  rw [List.map_map]
  rfl

variable [IsStrictOrderedRing K]

section Attenuated

variable (hnonneg : ∀ entry ∈ c.claimed keys scores, 0 ≤ entry.2)

include hnonneg

theorem mass_attenuated_le {most : K}
    (hmost : ∀ entry ∈ c.claimed keys scores, c.governing keys entry.1 ≤ most) :
    mass (c.attenuated keys scores) ≤ mass (c.claimed keys scores) * most := by
  rw [mass_attenuated, mass, Table.values, ← List.sum_map_mul_right]
  apply List.sum_le_sum
  intro entry hentry
  exact mul_le_mul_of_nonneg_left (hmost entry hentry) (hnonneg entry hentry)

theorem le_mass_attenuated {least : K}
    (hleast : ∀ entry ∈ c.claimed keys scores, least ≤ c.governing keys entry.1) :
    mass (c.claimed keys scores) * least ≤ mass (c.attenuated keys scores) := by
  rw [mass_attenuated, mass, Table.values, ← List.sum_map_mul_right]
  apply List.sum_le_sum
  intro entry hentry
  exact mul_le_mul_of_nonneg_left (hleast entry hentry) (hnonneg entry hentry)

end Attenuated

/-!
# Gains and losses
-/

theorem transfer_follows_multipliers (hscores : scores.Sorted)
    (hnonneg : ∀ entry ∈ c.claimed keys scores, 0 ≤ entry.2)
    (hbefore : 0 < mass (c.claimed keys scores))
    (hattenuated : 1 / 10 ^ 12 < mass (c.attenuated keys scores)) :
    let claimed := c.claimed keys scores
    let after := c.transfer keys scores
    (∀ i ∈ claimed, ∃ x, after.get? i.1 = some x ∧
      ((∀ j ∈ claimed, c.governing keys j.1 ≤ c.governing keys i.1) -> i.2 ≤ x) ∧
      ((∀ j ∈ claimed, c.governing keys i.1 ≤ c.governing keys j.1) -> x ≤ i.2)) ∧
    ∀ i ∈ claimed, ∀ j ∈ claimed, c.governing keys i.1 ≤ c.governing keys j.1 ->
      ∃ x y, after.get? i.1 = some x ∧ after.get? j.1 = some y ∧ x * j.2 ≤ y * i.2 := by
  intro claimed after
  have hpositive : 0 < mass (c.attenuated keys scores) := lt_trans (by positivity) hattenuated
  have hafter : ∀ i ∈ claimed, after.get? i.1 = some (i.2 * (c.governing keys i.1 *
      (mass (c.claimed keys scores) / mass (c.attenuated keys scores)))) := by
    intro i hi
    rw [get?_transfer_of_mem_claimed c keys hscores.nodup_keys hi, scaleBetween_eq,
      if_pos ⟨hbefore, hattenuated⟩]
  constructor
  · intro i hi
    refine ⟨_, hafter i hi, ?_, ?_⟩
    · intro hmost
      have hsum := mass_attenuated_le c keys hnonneg hmost
      exact le_mul_of_one_le_right (hnonneg i hi) (one_le_mul_div hpositive hsum)
    · intro hleast
      have hsum := le_mass_attenuated c keys hnonneg hleast
      exact mul_le_of_le_one_right (hnonneg i hi) (mul_div_le_one hpositive hsum)
  · intro i hi j hj hij
    refine ⟨_, _, hafter i hi, hafter j hj, ?_⟩
    generalize hscale : mass (c.claimed keys scores) / mass (c.attenuated keys scores) = scale
    have hnonnegScale : 0 ≤ scale := by
      rw [← hscale]
      exact (div_pos hbefore hpositive).le
    have hproduct : 0 ≤ i.2 * scale * j.2 :=
      mul_nonneg (mul_nonneg (hnonneg i hi) hnonnegScale) (hnonneg j hj)
    calc
      i.2 * (c.governing keys i.1 * scale) * j.2 =
          c.governing keys i.1 * (i.2 * scale * j.2) := by ring
      _ ≤ c.governing keys j.1 * (i.2 * scale * j.2) :=
          mul_le_mul_of_nonneg_right hij hproduct
      _ = j.2 * (c.governing keys j.1 * scale) * i.2 := by ring

/-- Two methods that share a key, and a score that is not claimed and negative. -/
theorem transfer_follows_multipliers_shared :
    let c : Competition ℝ :=
      { methods := ["a", "b"], power := 2, minKeep := 0,
        multipliers := [("a", 1 / 2), ("b", 1 / 4)] }
    let keys : Table (List String) := [("a", ["x", "x"]), ("b", ["x", "y", "missing"])]
    let scores : Table ℝ := [("x", 3), ("y", 2), ("z", -1)]
    let after := c.transfer keys scores
    scores.Sorted ∧
      (∀ entry ∈ c.claimed keys scores, 0 ≤ entry.2) ∧
      0 < mass (c.claimed keys scores) ∧ 1 / 10 ^ 12 < mass (c.attenuated keys scores) ∧
      (∃ x, after.get? "x" = some x ∧ 3 ≤ x) ∧ (∃ y, after.get? "y" = some y ∧ y ≤ 2) ∧
      ∃ y x, after.get? "y" = some y ∧ after.get? "x" = some x ∧ y * 3 ≤ x * 2 := by
  intro c keys scores after
  have hsorted : scores.Sorted := by decide
  have hclaimed : c.claimed keys scores = [("x", 3), ("y", 2)] := rfl
  have hx : c.governing keys "x" = 1 / 2 := rfl
  have hy : c.governing keys "y" = 1 / 4 := rfl
  have hnonneg : ∀ entry ∈ c.claimed keys scores, 0 ≤ entry.2 := by
    simp [hclaimed]
  have hbefore : 0 < mass (c.claimed keys scores) := by
    show 0 < ([3, 2] : List ℝ).sum
    norm_num
  have hattenuated : 1 / 10 ^ 12 < mass (c.attenuated keys scores) := by
    show 1 / 10 ^ 12 < ([3 * (1 / 2), 2 * (1 / 4)] : List ℝ).sum
    norm_num
  rcases transfer_follows_multipliers c keys hsorted hnonneg hbefore hattenuated with
    ⟨hmoves, hgains⟩
  rcases hmoves ("x", 3) (by simp [hclaimed]) with ⟨x, hgetX, hrises, _⟩
  rcases hmoves ("y", 2) (by simp [hclaimed]) with ⟨y, hgetY, _, hfalls⟩
  refine ⟨hsorted, hnonneg, hbefore, hattenuated, ⟨x, hgetX, hrises ?_⟩, ⟨y, hgetY, hfalls ?_⟩, ?_⟩
  · simp only [hclaimed, List.forall_mem_cons, hx, hy]
    norm_num
  · simp only [hclaimed, List.forall_mem_cons, hx, hy]
    norm_num
  · apply hgains ("y", 2) (by simp [hclaimed]) ("x", 3) (by simp [hclaimed])
    rw [hx, hy]
    norm_num

end Competition
end Reckoner
