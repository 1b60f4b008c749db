import Reckoner.Proofs.Competition.Doubles

/-!
# Where a transfer leaves the range

The scale of a transfer is the quotient of two sums.  Both are finite, but they may be of
any size, so the quotient may be out of range, or too small for any double.  Then no
claimed score is finite any more.  With a finite scale every claimed score is multiplied by a
finite factor, and it is finite unless that product is out of range.
-/

namespace Reckoner
namespace Competition

open Quantity Number Decimal
open Float.Model UnpackedFloat

/-!
# The scale
-/

/-- There is something to scale, and both sums are finite. -/
def Restores (before after : Float) : Prop :=
  before.isFinite = true ∧ after.isFinite = true ∧ 0 < before ∧ leastMass < after

def ScaleOverflows (before after : Float) : Prop :=
  Restores before after ∧ overflowSize ≤ exact before / exact after

/-- The quotient of the sums is at most half of the least double. -/
def ScaleVanishes (before after : Float) : Prop :=
  Restores before after ∧ exact before / exact after ≤ 2 ^ (-1075 : Int)

section Scale

variable {before after : Float}

theorem restores_iff :
    (isFinite before && isFinite after && lt Quantity.zero before && lt leastMass after) = true ↔
      Restores before after := by
  simp only [lt_eq_decide, Bool.and_eq_true, decide_eq_true_eq, and_assoc]
  rfl

theorem scaleBetween_of_restores (h : Restores before after) :
    scaleBetween before after = before / after :=
  if_pos (restores_iff.mpr h)

theorem scaleBetween_of_not_restores (h : ¬ Restores before after) :
    scaleBetween before after = 1 :=
  if_neg (restores_iff.not.mpr h)

theorem Restores.pos (h : Restores before after) : 0 < exact before ∧ 0 < exact after := by
  obtain ⟨hbefore, hafter, hpos, hmass⟩ := h
  have hleast : (leastMass : Float).isFinite = true := by decide
  have hmassPos := (lt_iff_exact (x := 0) rfl hleast).mp (by decide)
  rw [exact_zero] at hmassPos
  have hpos := (lt_iff_exact (x := 0) rfl hbefore).mp hpos
  rw [exact_zero] at hpos
  exact ⟨hpos, hmassPos.trans ((lt_iff_exact hleast hafter).mp hmass)⟩

/-- The scale is a number that is not negative, and it is finite and positive unless the quotient of
the sums is too large or too small. -/
theorem range_scaleBetween (before after : Float) :
    0 ≤ scaleBetween before after ∧
      ((scaleBetween before after).isFinite = true ↔ ¬ ScaleOverflows before after) ∧
      (0 < scaleBetween before after ↔ ¬ ScaleVanishes before after) := by
  by_cases h : Restores before after
  · have hrounded := rounded_div h.1 h.2.1 h.pos.2.ne'
    have hpos : 0 < exact before / exact after := div_pos h.pos.1 h.pos.2
    have hnonneg := hrounded.place_le (y := 0) rfl (by rw [exact_zero]; exact hpos.le)
    rw [← le_iff_place rfl hrounded.number] at hnonneg
    rw [scaleBetween_of_restores h, ScaleOverflows, ScaleVanishes, and_iff_right h,
      and_iff_right h, not_le, not_le, hrounded.finite_iff, abs_of_pos hpos]
    refine ⟨hnonneg, Iff.rfl, ?_⟩
    cases hin : (before / after).isFinite with
    | true =>
        have hvanishes := hrounded.vanishes_iff hin
        rw [abs_of_pos hpos] at hvanishes
        rw [le_iff_exact (x := 0) rfl hin, exact_zero] at hnonneg
        rw [lt_iff_exact (x := 0) rfl hin, exact_zero, hnonneg.lt_iff_ne', Ne, hvanishes, not_le]
    | false =>
        have hlarge : ¬ exact before / exact after < overflowSize := by
          rw [← abs_of_pos hpos, ← hrounded.finite_iff, hin]
          exact Bool.false_ne_true
        have hinfinite := hrounded.infinite hin
        rw [if_neg (not_lt_of_gt hpos)] at hinfinite
        have hsmall : (2 ^ (-1075 : Int) : ℚ) < overflowSize :=
          (zpow_lt_zpow_right₀ (by norm_num) (by norm_num)).trans zpow_lt_overflowSize
        rw [lt_iff_place rfl hrounded.number, place_of_positive_infinity hinfinite,
          place_of_finite rfl]
        exact iff_of_true (EReal.coe_lt_top _) (hsmall.trans_le (le_of_not_gt hlarge))
  · rw [scaleBetween_of_not_restores h]
    have hno (p : Prop) : ¬ (Restores before after ∧ p) := fun hp => h hp.1
    exact ⟨by decide, iff_of_true rfl (hno _), iff_of_true (by decide) (hno _)⟩

end Scale

/-!
# One score
-/

/-- A factor of at most one does not make a finite scale infinite. -/
theorem isFinite_move_iff {x m s : Float} (hx : x.isFinite = true) (hm : Between 0 1 m)
    (hs : 0 ≤ s) :
    (x * (m * s)).isFinite = true ↔
      s.isFinite = true ∧ |exact x * exact (m * s)| < overflowSize := by
  constructor
  · intro h
    obtain ⟨_, hfactor⟩ := finite_of_mul h
    exact ⟨(finite_of_mul hfactor).2, (rounded_mul hx hfactor).finite_iff.mp h⟩
  · rintro ⟨hscale, hsize⟩
    have hnonneg := (le_iff_exact (x := 0) rfl hscale).mp hs
    rw [exact_zero] at hnonneg
    have hfactor : (m * s).isFinite = true := by
      apply (rounded_mul hm.finite hscale).finite_iff.mpr
      refine lt_of_le_of_lt ?_ (abs_exact_lt hscale)
      rw [abs_mul, abs_of_nonneg hm.least]
      exact mul_le_of_le_one_left (abs_nonneg _) hm.most
    exact (rounded_mul hx hfactor).finite_iff.mpr hsize

/-!
# All scores
-/

theorem between_governing {pow : Float -> Float -> Float} (hpow : KeepsUnit pow)
    (methods : List String) (signals : Table Float) (tuning : Tuning Float)
    (keys : Table (List String)) (key : String) :
    Between 0 1 ((settleBy pow methods signals tuning).governing keys key) := by
  unfold governing
  cases (settleBy pow methods signals tuning).governor keys key with
  | none => exact between_one
  | some method =>
      have hbounds := between_multiplier_settleBy hpow methods signals tuning method
      exact ⟨hbounds.finite, (between_minKeep tuning).least.trans hbounds.least, hbounds.most⟩

theorem transfer_finite_iff {pow : Float -> Float -> Float} (hpow : KeepsUnit pow)
    (methods : List String) (signals : Table Float) (tuning : Tuning Float)
    (keys : Table (List String)) {scores : Table Float}
    (hscores : ∀ score ∈ scores.values, score.isFinite = true) :
    let c := settleBy pow methods signals tuning
    let scale := scaleOf (c.claims keys scores) scores
    (∀ before after : Float,
      0 ≤ scaleBetween before after ∧
      ((scaleBetween before after).isFinite = true ↔ ¬ ScaleOverflows before after) ∧
      (0 < scaleBetween before after ↔ ¬ ScaleVanishes before after)) ∧
    (c.transfer keys scores).keys = scores.keys ∧
    ∀ key score, scores.get? key = some score ->
      ∃ moved, (c.transfer keys scores).get? key = some moved ∧
        (moved.isFinite = true ↔ c.governor keys key = none ∨
          scale.isFinite = true ∧
            |exact score * exact (c.governing keys key * scale)| < overflowSize) := by
  intro c scale
  refine ⟨range_scaleBetween, keys_transfer c keys scores, ?_⟩
  intro key score hscore
  have hfinite := hscores score (List.mem_map_of_mem (Table.mem_of_get? hscore))
  have hmoved := get?_transfer c keys scores key
  rw [hscore, Option.map_some] at hmoved
  refine ⟨_, hmoved, ?_⟩
  unfold move
  cases hgovernor : c.governor keys key with
  | none => exact iff_of_true hfinite (.inl rfl)
  | some method =>
      have hclaimed : (some method).isSome = true := rfl
      rw [or_iff_right (Option.some_ne_none method), if_pos hclaimed]
      exact isFinite_move_iff hfinite (between_governing hpow methods signals tuning keys key)
        (range_scaleBetween _ _).1

/-- A score that is not attenuated to anything meets a scale without bounds. -/
theorem transfer_leaves_range :
    let c := settleBy (fun s _ => s) ["a", "b"] [("a", 0), ("b", 1)] { minKeep? := some 0 }
    let keys : Table (List String) := [("a", ["x"]), ("b", ["y"])]
    let scores : Table Float := [("x", 1e308), ("y", 1e-11)]
    KeepsUnit (fun s _ => s) ∧
      (∀ score ∈ scores.values, score.isFinite = true) ∧
      (scaleBetween (1e308 : Float) 1e-11).isFinite = false ∧
      ¬ 0 < scaleBetween (5e-324 : Float) 1e300 ∧
      ((c.transfer keys scores).get? "x").map Float.isNaN = some true ∧
      ((c.transfer keys scores).get? "y").map Float.isFinite = some false := by
  intro c keys scores
  refine ⟨fun s p hleast hmost _ => ⟨hleast, hmost⟩, ?_⟩
  decide +kernel

theorem transfer_finite_iff_extreme :
    let c := settleBy (fun s _ => s) ["a", "b"] [("a", 0), ("b", 1)] { minKeep? := some 0 }
    let keys : Table (List String) := [("a", ["x"]), ("b", ["y"])]
    let scores : Table Float := [("x", 1e308), ("y", 1e-11), ("z", 2)]
    let scale := scaleOf (c.claims keys scores) scores
    KeepsUnit (fun s _ => s) ∧
      (∀ score ∈ scores.values, score.isFinite = true) ∧
      scale.isFinite = false ∧
      (∃ moved, (c.transfer keys scores).get? "x" = some moved ∧ moved.isFinite = false) ∧
      ∃ moved, (c.transfer keys scores).get? "z" = some moved ∧ moved.isFinite = true := by
  intro c keys scores scale
  have hpow : KeepsUnit fun s _ => s := fun s p hleast hmost _ => ⟨hleast, hmost⟩
  obtain ⟨hscores, hscale⟩ :
      (∀ score ∈ scores.values, score.isFinite = true) ∧ scale.isFinite = false := by
    decide +kernel
  obtain ⟨_, _, hmoved⟩ := transfer_finite_iff hpow ["a", "b"] [("a", 0), ("b", 1)]
    { minKeep? := some 0 } keys hscores
  obtain ⟨x, hx, hxfinite⟩ := hmoved "x" 1e308 rfl
  obtain ⟨z, hz, hzfinite⟩ := hmoved "z" 2 rfl
  refine ⟨hpow, hscores, hscale, ⟨x, hx, ?_⟩, z, hz, hzfinite.mpr (.inl rfl)⟩
  rw [Bool.eq_false_iff, Ne, hxfinite]
  rintro (hfree | ⟨hbounded, _⟩)
  · cases hfree
  · exact absurd (hscale.symm.trans hbounded) Bool.false_ne_true

end Competition
end Reckoner
