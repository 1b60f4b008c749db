import Reckoner.Proofs.Competition.Weights

/-!
# What raises a share

In exact arithmetic a method with more support has no smaller share, and a higher power
leaves the best method no smaller share, as long as the methods share by weight both
times or alike both times.  Where the total weight passes the least total that counts,
a share may fall: the best method has more than an equal share before all weights become
too small, and a method below the average has less than an equal share as soon as
weights count.
-/

namespace Reckoner
namespace Competition

universe u

open Quantity Exact

/-!
# Sums over methods
-/

section Sums

variable {K : Type u} [Field K] {names : List String} {f g : String -> K} {name : String}

/-- Raising one term of a sum raises the sum by as much. -/
theorem sum_map_of_others (hnodup : names.Nodup) (hname : name ∈ names)
    (hothers : ∀ other, other ≠ name -> f other = g other) :
    (names.map g).sum = (names.map f).sum + (g name - f name) := by
  induction names with
  | nil => cases hname
  | cons first rest ih =>
      obtain ⟨hfresh, hrest⟩ := List.nodup_cons.mp hnodup
      simp only [List.map_cons, List.sum_cons]
      by_cases hfirst : first = name
      · subst hfirst
        have hsame : rest.map f = rest.map g := by
          apply List.map_congr_left
          intro other hother
          exact hothers other fun heq => hfresh (heq ▸ hother)
        rw [hsame]
        ring
      · rw [ih hrest (List.mem_of_ne_of_mem (Ne.symm hfirst) hname), hothers first hfirst]
        ring

variable [LinearOrder K] [IsStrictOrderedRing K]

theorem sum_map_lt_length_mul {w : K} (h : ∀ other ∈ names, f other ≤ w)
    (hless : ∃ other ∈ names, f other < w) : (names.map f).sum < names.length * w := by
  have hsum := List.sum_lt_sum f (fun _ => w) h hless
  rw [List.map_const', List.sum_replicate, nsmul_eq_mul] at hsum
  exact hsum

end Sums

/-!
# More support
-/

section Support

variable {K : Type u} [Field K] [LinearOrder K] [IsStrictOrderedRing K]

/-- A part of a total grows with its amount if the rest stays as it is. -/
theorem div_le_div_of_raise {w total raise : K} (hw : w ≤ total) (hraise : 0 ≤ raise)
    (htotal : 0 < total) : w / total ≤ (w + raise) / (total + raise) := by
  rw [div_le_div_iff₀ htotal (by linarith)]
  have hrest := mul_le_mul_of_nonneg_right hw hraise
  calc
    w * (total + raise) = w * total + w * raise := by ring
    _ ≤ w * total + total * raise := by linarith
    _ = (w + raise) * total := by ring

end Support

section Raise

variable {K : Type u} [Field K] [LinearOrder K] [Pow K K]

theorem level_of_get?_eq {signals signals' : Table (Exact K)} {method : String}
    (h : signals.get? method = signals'.get? method) :
    level signals method = level signals' method := by
  unfold level signalOf
  rw [h]

variable [IsStrictOrderedRing K]

variable {methods : List String} {signals signals' : Table (Exact K)} {tuning : Tuning (Exact K)}
  {method : String}

/-- Whether the weights of all methods together come to count although the one of a method remains
below the average. -/
def Awakens (methods : List String) (signals signals' : Table (Exact K))
    (tuning : Tuning (Exact K)) (method : String) : Prop :=
  totalWeight methods signals tuning ≤ leastTotal ∧
    leastTotal < totalWeight methods signals' tuning ∧
    ((distinct methods).length : K) * weight signals' tuning method <
      totalWeight methods signals' tuning

theorem portion_raised (hmethod : method ∈ methods)
    (hnonneg : ∀ other, 0 ≤ weight signals tuning other)
    (hothers : ∀ other, other ≠ method ->
      weight signals tuning other = weight signals' tuning other)
    (hraise : weight signals tuning method ≤ weight signals' tuning method) :
    (¬ Awakens methods signals signals' tuning method ->
      portion methods signals tuning method ≤ portion methods signals' tuning method) ∧
    (Awakens methods signals signals' tuning method ->
      portion methods signals' tuning method < portion methods signals tuning method) := by
  have hname := mem_distinct.mpr hmethod
  have hcount : (0 : K) < (distinct methods).length :=
    Nat.cast_pos.mpr (length_pos_of_mem_methods hmethod)
  have htotal : totalWeight methods signals' tuning = totalWeight methods signals tuning +
      (weight signals' tuning method - weight signals tuning method) :=
    sum_map_of_others (nodup_distinct methods) hname hothers
  have hleast : (0 : K) < leastTotal := leastTotal_pos
  unfold Awakens
  rcases lt_or_ge leastTotal (totalWeight methods signals tuning) with hweighty | hlight
  · have hweighty' : leastTotal < totalWeight methods signals' tuning := by
      rw [htotal]
      linarith
    have hpart := weight_le_totalWeight hmethod hnonneg
    constructor
    · intro _
      have hgrown := div_le_div_of_raise hpart (sub_nonneg.mpr hraise) (hleast.trans hweighty)
      rw [add_sub_cancel, ← htotal] at hgrown
      rw [portion_of_weighty hweighty, portion_of_weighty hweighty']
      exact hgrown
    · rintro ⟨hlight, _⟩
      exact absurd hlight (not_le_of_gt hweighty)
  · rcases lt_or_ge leastTotal (totalWeight methods signals' tuning) with hweighty' | hlight'
    · have hpositive : 0 < totalWeight methods signals' tuning := hleast.trans hweighty'
      rw [portion_of_light hlight, portion_of_weighty hweighty', div_le_div_iff₀ hcount hpositive,
        div_lt_div_iff₀ hpositive hcount, one_mul, mul_comm (weight signals' tuning method)]
      constructor
      · intro hnot
        by_contra hless
        exact hnot ⟨hlight, hweighty', not_le.mp hless⟩
      · rintro ⟨_, _, hless⟩
        exact hless
    · rw [portion_of_light hlight, portion_of_light hlight']
      constructor
      · intro _
        exact le_rfl
      · rintro ⟨_, hweighty', _⟩
        exact absurd hlight' (not_le_of_gt hweighty')

end Raise

/-- A method whose signal is raised has no smaller share and no smaller multiplier, unless the
weights come to count by this and its own is still below the average. -/
theorem share_le_of_support {K : Type u} [Field K] [LinearOrder K] [IsStrictOrderedRing K] [Pow K K]
    (hzero : ∀ p : K, 1 / 100 ≤ p -> 0 ≤ (0 : K) ^ p)
    (hpow : ∀ s t p : K, 0 ≤ s -> s ≤ t -> t ≤ 1 -> 1 / 100 ≤ p -> s ^ p ≤ t ^ p)
    (methods : List String) (tuning : Tuning (Exact K)) {signals signals' : Table (Exact K)}
    {method : String} {s t : K} (hmethod : method ∈ methods)
    (hs : signals.get? method = some (number s)) (ht : signals'.get? method = some (number t))
    (hst : s ≤ t)
    (hothers : ∀ other, other ≠ method -> signals.get? other = signals'.get? other) :
    let c := settle methods signals tuning
    let c' := settle methods signals' tuning
    (¬ Awakens methods signals signals' tuning method ->
      c.share method ≤ c'.share method ∧ c.multiplier method ≤ c'.multiplier method) ∧
    (Awakens methods signals signals' tuning method ->
      c'.share method < c.share method ∧ c'.multiplier method ≤ c.multiplier method) := by
  intro c c'
  obtain ⟨_, hp⟩ := power_eq_value tuning
  obtain ⟨_, _, hkeep⟩ := (within_minKeep tuning).eq_value
  have hnonneg (other : String) : 0 ≤ weight signals tuning other := by
    obtain ⟨hlow, hhigh⟩ := level_between signals other
    exact (hzero _ hp).trans (hpow 0 _ _ le_rfl hlow hhigh hp)
  have hsame (other : String) (hne : other ≠ method) :
      weight signals tuning other = weight signals' tuning other := by
    unfold weight
    rw [level_of_get?_eq (hothers other hne)]
  have hraise : weight signals tuning method ≤ weight signals' tuning method := by
    apply hpow _ _ _ (level_between signals method).1 _ (level_between signals' method).2 hp
    rw [level_of_number hs, level_of_number ht]
    exact max_le_max le_rfl (min_le_min hst le_rfl)
  obtain ⟨hrises, hfalls⟩ := portion_raised hmethod hnonneg hsame hraise
  rw [share_settle hmethod, share_settle hmethod, multiplier_settle hmethod,
    multiplier_settle hmethod]
  simp only [number_le_number, number_lt_number]
  constructor
  · intro hnot
    exact ⟨hrises hnot, multiplier_le_of_share_le hkeep (hrises hnot)⟩
  · intro hawakens
    exact ⟨hfalls hawakens, multiplier_le_of_share_le hkeep (hfalls hawakens).le⟩

/-- Real powers, a signal out of range, a method without one and a method that is repeated. -/
theorem share_le_of_support_real :
    let methods := ["a", "b", "a", "c"]
    let signals : Table (Exact ℝ) := [("a", .number (1 / 2)), ("b", .number (1 / 2))]
    let signals' : Table (Exact ℝ) := [("a", .number 3), ("b", .number (1 / 2))]
    let tuning : Tuning (Exact ℝ) := { minKeep? := some (.infinite false) }
    (∀ p : ℝ, 1 / 100 ≤ p -> 0 ≤ (0 : ℝ) ^ p) ∧
      (∀ s t p : ℝ, 0 ≤ s -> s ≤ t -> t ≤ 1 -> 1 / 100 ≤ p -> s ^ p ≤ t ^ p) ∧
      signals.get? "a" = some (.number (1 / 2)) ∧ signals'.get? "a" = some (.number 3) ∧
      (∀ other, other ≠ "a" -> signals.get? other = signals'.get? other) ∧
      (settle methods signals tuning).share "a" ≤ (settle methods signals' tuning).share "a" ∧
      (settle methods signals tuning).multiplier "a" ≤
        (settle methods signals' tuning).multiplier "a" := by
  intro methods signals signals' tuning
  have hzero (p : ℝ) (hp : 1 / 100 ≤ p) : 0 ≤ (0 : ℝ) ^ p := Real.rpow_nonneg le_rfl p
  have hpow (s t p : ℝ) (hs : 0 ≤ s) (hst : s ≤ t) (ht : t ≤ 1) (hp : 1 / 100 ≤ p) :
      s ^ p ≤ t ^ p := Real.rpow_le_rpow hs hst (by linarith)
  have hothers (other : String) (hne : other ≠ "a") :
      signals.get? other = signals'.get? other :=
    (if_neg (Ne.symm hne)).trans (if_neg (Ne.symm hne)).symm
  have hweighty : leastTotal < totalWeight methods signals tuning := by
    have ha : weight signals tuning "a" = 1 / 4 := by
      have hlevel : level signals "a" = 1 / 2 := by
        rw [level_of_number rfl]
        norm_num
      show level signals "a" ^ ((2 : Nat) : ℝ) = 1 / 4
      rw [hlevel, Real.rpow_natCast]
      norm_num
    have htotal := weight_le_totalWeight (by decide : "a" ∈ methods) fun other =>
      Real.rpow_nonneg (level_between signals other).1 tuning.power.value
    rw [ha] at htotal
    rw [leastTotal_eq]
    linarith
  have hsupport := share_le_of_support hzero hpow methods tuning (by decide : "a" ∈ methods)
    (rfl : signals.get? "a" = some (.number (1 / 2))) rfl (by norm_num) hothers
  exact ⟨hzero, hpow, rfl, rfl, hothers,
    hsupport.1 fun hawakens => absurd hawakens.1 (not_le_of_gt hweighty)⟩

/-- A method whose signal is raised falls below the equal share that it had. -/
theorem share_falls_with_support :
    let methods := ["a", "b"]
    let signals : Table (Exact ℝ) := [("a", .number 0), ("b", .number (9 / 10 ^ 10))]
    let signals' : Table (Exact ℝ) :=
      [("a", .number (2 / 10 ^ 10)), ("b", .number (9 / 10 ^ 10))]
    let tuning : Tuning (Exact ℝ) := { power? := some (.number 1), minKeep? := some (.number 0) }
    (∀ s t p : ℝ, 0 ≤ s -> s ≤ t -> t ≤ 1 -> 1 / 100 ≤ p -> s ^ p ≤ t ^ p) ∧
      (settle methods signals tuning).share "a" = .number (1 / 2) ∧
      (settle methods signals' tuning).share "a" = .number (2 / 11) := by
  intro methods signals signals' tuning
  have hpow (s t p : ℝ) (hs : 0 ≤ s) (hst : s ≤ t) (ht : t ≤ 1) (hp : 1 / 100 ≤ p) :
      s ^ p ≤ t ^ p := Real.rpow_le_rpow hs hst (by linarith)
  have hdistinct : distinct methods = ["a", "b"] := by decide
  have hpower : tuning.power.value = 1 := power_of_number (by norm_num) _
  have hweight {table : Table (Exact ℝ)} {method : String} {x : ℝ}
      (h : table.get? method = some (.number x)) :
      weight table tuning method = max 0 (min x 1) := by
    unfold weight
    rw [hpower, Real.rpow_one, level_of_number h]
  have htotal : totalWeight methods signals tuning = 9 / 10 ^ 10 := by
    rw [totalWeight_pair hdistinct, hweight rfl, hweight rfl]
    norm_num
  have htotal' : totalWeight methods signals' tuning = 11 / 10 ^ 10 := by
    rw [totalWeight_pair hdistinct, hweight rfl, hweight rfl]
    norm_num
  refine ⟨hpow, ?_, ?_⟩
  · rw [share_settle (by decide), portion_of_light (by rw [htotal, leastTotal_eq]; norm_num),
      hdistinct]
    norm_num
  · rw [share_settle (by decide), portion_of_weighty (by rw [htotal', leastTotal_eq]; norm_num),
      htotal', hweight rfl]
    norm_num

/-!
# Higher powers
-/

section Power

variable {names : List String} {level : String -> ℝ} {best : String} {p q : ℝ}

theorem rpow_mul_rpow_le {x y : ℝ} (hx : 0 ≤ x) (hxy : x ≤ y) (hp : 0 < p) (hpq : p ≤ q) :
    y ^ p * x ^ q ≤ y ^ q * x ^ p := by
  have hy : 0 ≤ y := hx.trans hxy
  have hsplit {z : ℝ} (hz : 0 ≤ z) : z ^ q = z ^ p * z ^ (q - p) := by
    rw [← Real.rpow_add_of_nonneg hz hp.le (sub_nonneg.mpr hpq), add_sub_cancel]
  have hrest : x ^ (q - p) ≤ y ^ (q - p) :=
    Real.rpow_le_rpow hx hxy (sub_nonneg.mpr hpq)
  have hpart := mul_le_mul_of_nonneg_left hrest
    (mul_nonneg (Real.rpow_nonneg hy p) (Real.rpow_nonneg hx p))
  rw [hsplit hx, hsplit hy]
  linarith

/-- The power of the greatest number has no smaller part of the sum of higher powers. -/
theorem rpow_mul_sum_le (hlevel : ∀ name ∈ names, 0 ≤ level name ∧ level name ≤ level best)
    (hp : 0 < p) (hpq : p ≤ q) :
    level best ^ p * (names.map fun name => level name ^ q).sum ≤
      level best ^ q * (names.map fun name => level name ^ p).sum := by
  rw [← List.sum_map_mul_left, ← List.sum_map_mul_left]
  apply List.sum_le_sum
  intro name hname
  obtain ⟨hnonneg, hbest⟩ := hlevel name hname
  exact rpow_mul_rpow_le hnonneg hbest hp hpq

end Power

section Sharpen

variable {methods : List String} {signals : Table (Exact ℝ)} {mild sharp : Tuning (Exact ℝ)}
  {method : String}

/-- Whether the weights of all methods together cease to count although one signal is better than
another. -/
def Fades (methods : List String) (signals : Table (Exact ℝ)) (mild sharp : Tuning (Exact ℝ))
    (method : String) : Prop :=
  leastTotal < totalWeight methods signals mild ∧
    totalWeight methods signals sharp ≤ leastTotal ∧
    ∃ other ∈ methods, signalOf signals other < signalOf signals method

theorem totalWeight_le_of_power (hpq : mild.power.value ≤ sharp.power.value) :
    totalWeight methods signals sharp ≤ totalWeight methods signals mild := by
  obtain ⟨_, hp⟩ := power_eq_value mild
  apply List.sum_le_sum
  intro name _
  obtain ⟨hlow, hhigh⟩ := level_between signals name
  unfold weight
  rcases hlow.eq_or_lt with hzero | hpositive
  · rw [← hzero, Real.zero_rpow (by linarith), Real.zero_rpow (by linarith)]
  · exact Real.rpow_le_rpow_of_exponent_ge hpositive hhigh hpq

theorem portion_sharpened (hmethod : method ∈ methods)
    (hbest : ∀ other ∈ methods, level signals other ≤ level signals method)
    (hpq : mild.power.value ≤ sharp.power.value) :
    (¬ Fades methods signals mild sharp method ->
      portion methods signals mild method ≤ portion methods signals sharp method) ∧
    (Fades methods signals mild sharp method ->
      portion methods signals sharp method < portion methods signals mild method) := by
  have hcount : (0 : ℝ) < (distinct methods).length :=
    Nat.cast_pos.mpr (length_pos_of_mem_methods hmethod)
  have hleast : (0 : ℝ) < leastTotal := leastTotal_pos
  obtain ⟨_, hp⟩ := power_eq_value mild
  have hpower : 0 < mild.power.value := by linarith
  have hbounds : ∀ other ∈ distinct methods,
      0 ≤ level signals other ∧ level signals other ≤ level signals method := by
    intro other hother
    exact ⟨(level_between signals other).1, hbest other (mem_distinct.mp hother)⟩
  have hweights : ∀ other ∈ distinct methods,
      weight signals mild other ≤ weight signals mild method := by
    intro other hother
    exact Real.rpow_le_rpow (hbounds other hother).1 (hbounds other hother).2 hpower.le
  have htotal : totalWeight methods signals sharp ≤ totalWeight methods signals mild :=
    totalWeight_le_of_power hpq
  unfold Fades
  rcases lt_or_ge leastTotal (totalWeight methods signals sharp) with hsharp | hsharp
  · have hmild : leastTotal < totalWeight methods signals mild := hsharp.trans_le htotal
    rw [portion_of_weighty hsharp, portion_of_weighty hmild,
      div_le_div_iff₀ (hleast.trans hmild) (hleast.trans hsharp)]
    constructor
    · intro _
      exact rpow_mul_sum_le hbounds hpower hpq
    · rintro ⟨_, hlight, _⟩
      exact absurd hlight (not_le_of_gt hsharp)
  · rcases lt_or_ge leastTotal (totalWeight methods signals mild) with hmild | hmild
    · have hpositive : 0 < totalWeight methods signals mild := hleast.trans hmild
      rw [portion_of_light hsharp, portion_of_weighty hmild, div_le_div_iff₀ hpositive hcount,
        div_lt_div_iff₀ hcount hpositive, one_mul, mul_comm (weight signals mild method)]
      constructor
      · intro hnot
        -- all signals are alike, so the best weight is the average
        have halike : ∀ other ∈ distinct methods,
            weight signals mild other = weight signals mild method := by
          intro other hother
          have hnone : ¬ level signals other < level signals method := by
            intro hless
            apply hnot
            refine ⟨hmild, hsharp, other, mem_distinct.mp hother, ?_⟩
            rw [signalOf_eq_level, signalOf_eq_level]
            exact number_lt_number.mpr hless
          unfold weight
          rw [le_antisymm (hbounds other hother).2 (not_lt.mp hnone)]
        unfold totalWeight
        rw [List.map_congr_left halike, List.map_const', List.sum_replicate, nsmul_eq_mul]
      · rintro ⟨_, _, other, hother, hless⟩
        rw [signalOf_eq_level, signalOf_eq_level, number_lt_number] at hless
        apply sum_map_lt_length_mul hweights
        refine ⟨other, mem_distinct.mpr hother, ?_⟩
        exact Real.rpow_lt_rpow (level_between signals other).1 hless hpower
    · rw [portion_of_light hsharp, portion_of_light hmild]
      constructor
      · intro _
        exact le_rfl
      · rintro ⟨hweighty, _⟩
        exact absurd hmild (not_le_of_gt hweighty)

end Sharpen

/-- A higher power gives the method with the best signal no smaller share and no smaller multiplier,
unless the weights cease to count by it and another signal is worse. -/
theorem share_le_of_power {p q : ℝ} (hp : 1 / 100 ≤ p) (hpq : p ≤ q) (keep? : Option (Exact ℝ))
    (methods : List String) (signals : Table (Exact ℝ)) {method : String}
    (hmethod : method ∈ methods)
    (hbest : ∀ other ∈ methods, signalOf signals other ≤ signalOf signals method) :
    let mild : Tuning (Exact ℝ) := { power? := some (number p), minKeep? := keep? }
    let sharp : Tuning (Exact ℝ) := { power? := some (number q), minKeep? := keep? }
    let c := settle methods signals mild
    let c' := settle methods signals sharp
    (¬ Fades methods signals mild sharp method ->
      c.share method ≤ c'.share method ∧ c.multiplier method ≤ c'.multiplier method) ∧
    (Fades methods signals mild sharp method ->
      c'.share method < c.share method ∧ c'.multiplier method ≤ c.multiplier method) := by
  intro mild sharp c c'
  have hpower : mild.power.value ≤ sharp.power.value := by
    rw [power_of_number hp, power_of_number (hp.trans hpq)]
    exact hpq
  have hlevels : ∀ other ∈ methods, level signals other ≤ level signals method := by
    intro other hother
    have hle := hbest other hother
    rw [signalOf_eq_level, signalOf_eq_level, number_le_number] at hle
    exact hle
  obtain ⟨hrises, hfalls⟩ := portion_sharpened hmethod hlevels hpower
  obtain ⟨_, _, hkeep⟩ := (within_minKeep mild).eq_value
  have hsame : sharp.minKeep.value = mild.minKeep.value := rfl
  rw [share_settle hmethod, share_settle hmethod, multiplier_settle hmethod,
    multiplier_settle hmethod, hsame]
  simp only [number_le_number, number_lt_number]
  constructor
  · intro hnot
    exact ⟨hrises hnot, multiplier_le_of_share_le hkeep (hrises hnot)⟩
  · intro hfades
    exact ⟨hfalls hfades, multiplier_le_of_share_le hkeep (hfalls hfades).le⟩

/-- Twice the power, with a method without a signal. -/
theorem share_le_of_power_squared :
    let methods := ["a", "b", "c"]
    let signals : Table (Exact ℝ) := [("a", .number (4 / 5)), ("b", .number (2 / 5))]
    let mild : Tuning (Exact ℝ) := { power? := some (.number 1), minKeep? := none }
    let sharp : Tuning (Exact ℝ) := { power? := some (.number 2), minKeep? := none }
    (1 / 100 : ℝ) ≤ 1 ∧ (1 : ℝ) ≤ 2 ∧
      (∀ other ∈ methods, signalOf signals other ≤ signalOf signals "a") ∧
      (settle methods signals mild).share "a" ≤ (settle methods signals sharp).share "a" ∧
      (settle methods signals mild).multiplier "a" ≤
        (settle methods signals sharp).multiplier "a" := by
  intro methods signals mild sharp
  have hlevel : level signals "a" = 4 / 5 := by
    rw [level_of_number rfl]
    norm_num
  have hbest : ∀ other ∈ methods, signalOf signals other ≤ signalOf signals "a" := by
    intro other hother
    rw [signalOf_eq_level, signalOf_eq_level, number_le_number, hlevel]
    have hcases : other = "a" ∨ other = "b" ∨ other = "c" := by simpa [methods] using hother
    rcases hcases with rfl | rfl | rfl
    · exact hlevel.le
    · rw [level_of_number rfl]
      norm_num
    · show (zero : Exact ℝ).value ≤ 4 / 5
      rw [zero_eq]
      show (0 : ℝ) ≤ 4 / 5
      norm_num
  have hweighty : leastTotal < totalWeight methods signals sharp := by
    have ha : weight signals sharp "a" = 16 / 25 := by
      have hpower : sharp.power.value = 2 := power_of_number (by norm_num) _
      unfold weight
      rw [hpower, hlevel, Real.rpow_ofNat]
      norm_num
    have htotal := weight_le_totalWeight (by decide : "a" ∈ methods) fun other =>
      Real.rpow_nonneg (level_between signals other).1 sharp.power.value
    rw [ha] at htotal
    rw [leastTotal_eq]
    linarith
  have hpower := share_le_of_power (by norm_num : (1 / 100 : ℝ) ≤ 1) (by norm_num : (1 : ℝ) ≤ 2)
    none methods signals (by decide : "a" ∈ methods) hbest
  exact ⟨by norm_num, by norm_num, hbest,
    hpower.1 fun hfades => absurd hfades.2.1 (not_le_of_gt hweighty)⟩

/-- The only method with a signal loses half of all by a higher power. -/
theorem share_falls_with_power :
    let methods := ["a", "b"]
    let signals : Table (Exact ℝ) := [("a", .number (1 / 10)), ("b", .number 0)]
    let mild : Tuning (Exact ℝ) := { power? := some (.number 1), minKeep? := some (.number 0) }
    let sharp : Tuning (Exact ℝ) := { power? := some (.number 10), minKeep? := some (.number 0) }
    (1 / 100 : ℝ) ≤ 1 ∧ (1 : ℝ) ≤ 10 ∧
      (∀ other ∈ methods, signalOf signals other ≤ signalOf signals "a") ∧
      (settle methods signals mild).share "a" = .number 1 ∧
      (settle methods signals sharp).share "a" = .number (1 / 2) := by
  intro methods signals mild sharp
  have hlevel : level signals "a" = 1 / 10 := by
    rw [level_of_number rfl]
    norm_num
  have hother : level signals "b" = 0 := by
    rw [level_of_number rfl]
    norm_num
  have hbest : ∀ other ∈ methods, signalOf signals other ≤ signalOf signals "a" := by
    intro other hmem
    rw [signalOf_eq_level, signalOf_eq_level, number_le_number, hlevel]
    have hcases : other = "a" ∨ other = "b" := by simpa [methods] using hmem
    rcases hcases with rfl | rfl
    · exact hlevel.le
    · rw [hother]
      norm_num
  have hdistinct : distinct methods = ["a", "b"] := by decide
  have hpower : mild.power.value = 1 := power_of_number (by norm_num) _
  have hpower' : sharp.power.value = 10 := power_of_number (by norm_num) _
  have hweight : weight signals mild "a" = 1 / 10 := by
    unfold weight
    rw [hpower, hlevel, Real.rpow_one]
  have htotal : totalWeight methods signals mild = 1 / 10 := by
    rw [totalWeight_pair hdistinct, weight, weight, hpower, hlevel, hother]
    norm_num
  have htotal' : totalWeight methods signals sharp = 1 / 10 ^ 10 := by
    rw [totalWeight_pair hdistinct, weight, weight, hpower', hlevel, hother]
    norm_num
  refine ⟨by norm_num, by norm_num, hbest, ?_, ?_⟩
  · rw [share_settle (by decide), portion_of_weighty (by rw [htotal, leastTotal_eq]; norm_num),
      hweight, htotal]
    norm_num
  · rw [share_settle (by decide), portion_of_light (by rw [htotal', leastTotal_eq]; norm_num),
      hdistinct]
    norm_num

end Competition
end Reckoner
