import Reckoner.Proofs.Competition.Conservation
import Reckoner.Proofs.Competition.Shares
import Reckoner.Proofs.Decimal.Nearest

/-!
# Competitions of doubles

A sum of weights is no smaller than any of them, also where it is rounded.  So a share is
a double between zero and one, and a multiplier between the part that is kept and one:
what is lost by rounding is too little for the double after one.
-/

namespace Reckoner
namespace Competition

open Quantity Number Decimal
open Float.Model UnpackedFloat

@[reducible] def doubles (pow : Float -> Float -> Float) : Quantity Float :=
  { (inferInstance : Quantity Float) with pow := pow }

def settleBy (pow : Float -> Float -> Float) (methods : List String) (signals : Table Float)
    (tuning : Tuning Float) : Competition Float :=
  @settle Float (doubles pow) methods signals tuning

theorem settleBy_pow : settleBy Float.pow = settle := rfl

/-- The power of a number between zero and one is between zero and one. -/
def KeepsUnit (pow : Float -> Float -> Float) : Prop :=
  ∀ s p : Float, 0 ≤ s -> s ≤ 1 -> 0.01 ≤ p -> 0 ≤ pow s p ∧ pow s p ≤ 1

def weightsBy (pow : Float -> Float -> Float) (methods : List String) (signals : Table Float)
    (tuning : Tuning Float) : List Float :=
  ((distinct methods).map (signalOf signals)).map fun s => pow s tuning.power

theorem multipliers_settleBy (pow : Float -> Float -> Float) (methods : List String)
    (signals : Table Float) (tuning : Tuning Float) :
    (settleBy pow methods signals tuning).multipliers =
      Table.mapValues (multiplierOf tuning.minKeep) (Table.ofList
        ((distinct methods).zip (sharesOf (weightsBy pow methods signals tuning)))) := rfl

theorem lt_eq_decide (x y : Float) : lt x y = decide (x < y) := rfl

/-!
# Numbers between zero and one
-/

theorem between_zero : Between 0 1 0 :=
  ⟨rfl, exact_zero.ge, exact_zero.le.trans zero_le_one⟩

theorem between_one : Between 0 1 1 :=
  ⟨rfl, zero_le_one.trans exact_one.ge, exact_one.le⟩

theorem between_zero_one_iff {x : Float} : Between 0 1 x ↔ 0 ≤ x ∧ x ≤ 1 := by
  have hbounds := between_iff (x := x) (a := 0) (b := 1) rfl rfl
  rwa [exact_zero, exact_one] at hbounds

theorem between_clampUnit {x : Float} (hx : x.isFinite = true) : Between 0 1 (clampUnit x) := by
  unfold clampUnit
  simp only [lt_eq_decide, decide_eq_true_eq]
  split
  · exact between_zero
  · rename_i hlow
    split
    · exact between_one
    · rename_i hhigh
      refine ⟨hx, ?_, ?_⟩
      · have hle := not_lt.mp ((lt_iff_exact hx (y := 0) rfl).not.mp hlow)
        rwa [exact_zero] at hle
      · have hle := not_lt.mp ((lt_iff_exact (x := 1) rfl hx).not.mp hhigh)
        rwa [exact_one] at hle

theorem between_signalOf (signals : Table Float) (method : String) :
    Between 0 1 (signalOf signals method) := by
  unfold signalOf
  split
  · split
    · rename_i hfinite
      exact between_clampUnit hfinite
    · exact between_zero
  · exact between_zero

theorem between_minKeep (tuning : Tuning Float) : Between 0 1 tuning.minKeep := by
  unfold Tuning.minKeep
  split
  · split
    · rename_i hfinite
      exact between_clampUnit hfinite
    · exact between_zero_one_iff.mpr (by decide)
  · exact between_zero_one_iff.mpr (by decide)

theorem minPower_le_power (tuning : Tuning Float) : 0.01 ≤ tuning.power := by
  have hdefault : (0.01 : Float) ≤ Tuning.defaultPower := by decide
  unfold Tuning.power
  split
  · rename_i p _
    split
    · rename_i hfinite
      unfold atLeast
      simp only [lt_eq_decide, decide_eq_true_eq]
      split
      · show (0.01 : Float) ≤ 0.01
        decide
      · rename_i hlow
        have hleast : (0.01 : Float).isFinite = true := by decide
        exact (le_iff_exact hleast hfinite).mpr
          (not_lt.mp ((lt_iff_exact hfinite hleast).not.mp hlow))
    · exact hdefault
  · exact hdefault

theorem between_weightsBy {pow : Float -> Float -> Float} (hpow : KeepsUnit pow)
    (methods : List String) (signals : Table Float) (tuning : Tuning Float) :
    ∀ w ∈ weightsBy pow methods signals tuning, Between 0 1 w := by
  intro w hw
  obtain ⟨s, hs, rfl⟩ := List.mem_map.mp hw
  obtain ⟨method, _, rfl⟩ := List.mem_map.mp hs
  obtain ⟨hleast, hmost⟩ := between_zero_one_iff.mp (between_signalOf signals method)
  exact between_zero_one_iff.mpr (hpow _ _ hleast hmost (minPower_le_power tuning))

/-!
# Shares
-/

theorem add_grows {x w : Float} (hx : x.isNaN = false) (hnonneg : 0 ≤ place x)
    (hw : Between 0 1 w) :
    (x + w).isNaN = false ∧ place x ≤ place (x + w) ∧ place w ≤ place (x + w) := by
  rcases number_cases hx with hbot | htop | hfinite
  · rw [place_of_negative_infinity hbot] at hnonneg
    exact absurd hnonneg (not_le_of_gt EReal.bot_lt_zero)
  · have hinfinite : x.isFinite = false := by
      show x.toModel.unpack.isFinite = false
      rw [htop]
      rfl
    rw [add_of_infinite hx hinfinite hw.finite, place_of_positive_infinity htop]
    exact ⟨hx, le_rfl, le_top⟩
  · have hsum := rounded_add hfinite hw.finite
    have hexact : 0 ≤ exact x := by
      rw [place_of_finite hfinite] at hnonneg
      exact_mod_cast hnonneg
    exact ⟨hsum.number, hsum.place_le hfinite (by linarith [hw.least]),
      hsum.place_le hw.finite (by linarith)⟩

/-- A sum of weights is a number, and no smaller than any of them. -/
theorem foldl_add_grows {ws : List Float} (hws : ∀ w ∈ ws, Between 0 1 w) {x : Float}
    (hx : x.isNaN = false) (hnonneg : 0 ≤ place x) :
    (ws.foldl (· + ·) x).isNaN = false ∧ place x ≤ place (ws.foldl (· + ·) x) ∧
      ∀ w ∈ ws, place w ≤ place (ws.foldl (· + ·) x) := by
  induction ws generalizing x with
  | nil => exact ⟨hx, le_rfl, fun w hw => nomatch hw⟩
  | cons first rest ih =>
      obtain ⟨hfirst, hrest⟩ := List.forall_mem_cons.mp hws
      obtain ⟨hnumber, hx', hw'⟩ := add_grows hx hnonneg hfirst
      obtain ⟨htotal, hgrown, hall⟩ := ih hrest hnumber (hnonneg.trans hx')
      rw [List.foldl_cons]
      refine ⟨htotal, hx'.trans hgrown, ?_⟩
      intro w hw
      rcases List.mem_cons.mp hw with rfl | hmem
      · exact hw'.trans hgrown
      · exact hall w hmem

theorem between_div {w t : Float} (hw : Between 0 1 w) (ht : t.isNaN = false)
    (hpos : 0 < place t) (hle : place w ≤ place t) : Between 0 1 (w / t) := by
  rcases number_cases ht with hbot | htop | hfinite
  · rw [place_of_negative_infinity hbot] at hpos
    exact absurd hpos (not_lt_of_gt EReal.bot_lt_zero)
  · -- a finite number divided by an infinity is zero
    obtain ⟨sign, hquotient⟩ : ∃ sign, UnpackedFloat.div Format.binary64 w.toModel.unpack
        t.toModel.unpack = .zero sign := by
      rw [htop]
      rcases unpack_cases hw.finite with ⟨sign, hunpack⟩ | ⟨sign, m, q, hm, hunpack⟩
      · exact ⟨sign / .positive, by rw [hunpack]; rfl⟩
      · exact ⟨sign / .positive, by rw [hunpack]; rfl⟩
    have hzero : (w / t).toModel.unpack = .zero sign := by
      show (Float.Model.pack (UnpackedFloat.div Format.binary64 w.toModel.unpack
        t.toModel.unpack)).unpack = _
      rw [hquotient]
      cases sign <;> rfl
    have hexact := exact_of_zero hzero
    refine ⟨?_, hexact.ge, hexact.le.trans zero_le_one⟩
    show (w / t).toModel.unpack.isFinite = true
    rw [hzero]
    rfl
  · rw [place_of_finite hfinite] at hpos
    have hpos : 0 < exact t := by exact_mod_cast hpos
    have hle : exact w ≤ exact t := (place_le_iff_exact hw.finite hfinite).mp hle
    have hquotient := rounded_div hw.finite hfinite hpos.ne'
    have hbounds := hquotient.between (a := 0) (b := 1) rfl rfl
      (by rw [exact_zero]; exact div_nonneg hw.least hpos.le)
      (by rw [exact_one]; exact (div_le_one hpos).mpr hle)
    rwa [exact_zero, exact_one] at hbounds

theorem one_le_place_ofNat {n : Nat} (hn : 0 < n) : place 1 ≤ place (Float.ofNat n) := by
  apply (rounded_ofNat n).place_le rfl
  rw [exact_one]
  exact_mod_cast hn

theorem place_zero_lt_one : 0 < place 1 := by
  rw [place_of_finite rfl, exact_one]
  norm_num

theorem between_sharesOf {ws : List Float} (hws : ∀ w ∈ ws, Between 0 1 w) :
    ∀ share ∈ sharesOf ws, Between 0 1 share := by
  have hzero : 0 ≤ place (0 : Float) := by
    rw [place_of_finite rfl, exact_zero]
    norm_num
  obtain ⟨htotal, hgrown, hall⟩ := foldl_add_grows hws (x := 0) rfl hzero
  intro share hshare
  unfold sharesOf at hshare
  simp only at hshare
  split at hshare
  · rename_i hweighty
    obtain ⟨w, hw, rfl⟩ := List.mem_map.mp hshare
    have hweighty : leastTotal < ws.foldl (· + ·) 0 := of_decide_eq_true hweighty
    have hleast : (leastTotal : Float).isNaN = false := by decide
    have hsmall : (0 : Float) < leastTotal := by decide
    have hpos := ((lt_iff_place rfl hleast).mp hsmall).trans
      ((lt_iff_place hleast htotal).mp hweighty)
    exact between_div (hws w hw) htotal (hzero.trans_lt hpos) (hall w hw)
  · obtain ⟨w, hw, rfl⟩ := List.mem_map.mp hshare
    have hone := one_le_place_ofNat (List.length_pos_of_mem hw)
    exact between_div between_one (rounded_ofNat _).number (place_zero_lt_one.trans_le hone) hone

/-!
# Multipliers
-/

theorem length_sharesOf (ws : List Float) : (sharesOf ws).length = ws.length := by
  unfold sharesOf
  simp only
  split
  · exact List.length_map _
  · exact List.length_map _

theorem between_multiplierOf {k share : Float} (hk : Between 0 1 k) (hshare : Between 0 1 share) :
    Between (exact k) 1 (multiplierOf k share) := by
  have hrest : Rounded (1 - exact k) (1 - k) := by
    have hdifference := rounded_sub (x := 1) rfl hk.finite
    rwa [exact_one] at hdifference
  have hrestBetween : Between 0 1 (1 - k) := by
    have hbounds := hrest.between (a := 0) (b := 1) rfl rfl
      (by rw [exact_zero]; linarith [hk.most]) (by rw [exact_one]; linarith [hk.least])
    rwa [exact_zero, exact_one] at hbounds
  have hpart := (rounded_mul hrestBetween.finite hshare.finite).between (a := 0) rfl
    hrestBetween.finite
    (by rw [exact_zero]; exact mul_nonneg hrestBetween.least hshare.least)
    (mul_le_of_le_one_right hrestBetween.least hshare.most)
  rw [exact_zero] at hpart
  have hsum := rounded_add hk.finite hpart.finite
  have hexcess : exact k + exact ((1 - k) * share) < 1 + 2 ^ (-53 : Int) := by
    have hlost := abs_lt.mp (hrest.dist_lt hrestBetween.finite
      (by linarith [hk.most]) (by linarith [hk.least]))
    linarith [hpart.most]
  have hfinite : (k + (1 - k) * share).isFinite = true := by
    rw [hsum.finite_iff, abs_of_nonneg (add_nonneg hk.least hpart.least)]
    have htwo : (2 ^ (1 : Int) : ℚ) < overflowSize :=
      (zpow_lt_zpow_right₀ (by norm_num) (by norm_num)).trans zpow_lt_overflowSize
    have hsmall : (2 ^ (-53 : Int) : ℚ) < 1 := by norm_num
    rw [zpow_one] at htwo
    linarith
  refine ⟨hfinite, ?_, ?_⟩
  · exact (place_le_iff_exact hk.finite hfinite).mp
      (hsum.place_le hk.finite (by linarith [hpart.least]))
  · apply exact_le_one_of_lt hfinite
    show exact (k + (1 - k) * share) < _
    have hdist := hsum.dist_le hfinite (y := 1) rfl
    rw [exact_one] at hdist
    have hstep : (2 ^ (-52 : Int) : ℚ) = 2 ^ (-53 : Int) + 2 ^ (-53 : Int) := by norm_num
    rcases le_or_gt (exact k + exact ((1 - k) * share)) 1 with hin | hout
    · rw [abs_of_nonpos (sub_nonpos.mpr hin)] at hdist
      have hpos : (0 : ℚ) < 2 ^ (-53 : Int) := by positivity
      linarith [neg_abs_le (exact k + exact ((1 - k) * share) - exact (k + (1 - k) * share))]
    · rw [abs_of_pos (sub_pos.mpr hout)] at hdist
      linarith [neg_abs_le (exact k + exact ((1 - k) * share) - exact (k + (1 - k) * share))]

theorem between_multiplier_settleBy {pow : Float -> Float -> Float} (hpow : KeepsUnit pow)
    (methods : List String) (signals : Table Float) (tuning : Tuning Float) (method : String) :
    Between (exact tuning.minKeep) 1
      ((settleBy pow methods signals tuning).multiplier method) := by
  have hkeep := between_minKeep tuning
  unfold multiplier
  rw [multipliers_settleBy, Table.get?_mapValues]
  cases hshare : (Table.ofList ((distinct methods).zip
      (sharesOf (weightsBy pow methods signals tuning)))).get? method with
  | none =>
      show Between (exact tuning.minKeep) 1 1
      exact ⟨rfl, hkeep.most.trans exact_one.ge, exact_one.le⟩
  | some share =>
      have hlength : (distinct methods).length =
          (sharesOf (weightsBy pow methods signals tuning)).length := by
        rw [length_sharesOf, weightsBy, List.length_map, List.length_map]
      have hvalue : share ∈ sharesOf (weightsBy pow methods signals tuning) :=
        (values_ofList_zip (nodup_distinct methods) hlength).subset
          (List.mem_map_of_mem (Table.mem_of_get? hshare))
      exact between_multiplierOf hkeep
        (between_sharesOf (between_weightsBy hpow methods signals tuning) share hvalue)

end Competition
end Reckoner
