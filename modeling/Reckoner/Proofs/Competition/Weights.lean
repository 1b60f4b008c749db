import Reckoner.Proofs.Competition.Shares

/-!
# The share of one method

In exact arithmetic the share of a method is its part of the total weight, or one of
equal parts if there is no weight to speak of.  The multiplier is on the line between
the part that is kept and one.
-/

namespace Reckoner

universe u

namespace Exact

variable {K : Type u}

def value [Zero K] : Exact K -> K
  | number x => x
  | _ => 0

/-- Numbers are compared as such, and nothing else is compared. -/
instance [LE K] : LE (Exact K) where
  le x y := ∃ a b, x = number a ∧ y = number b ∧ a ≤ b

instance [LT K] : LT (Exact K) where
  lt x y := ∃ a b, x = number a ∧ y = number b ∧ a < b

@[simp] theorem number_le_number [LE K] {a b : K} : number a ≤ number b ↔ a ≤ b := by
  constructor
  · rintro ⟨_, _, ⟨⟩, ⟨⟩, hle⟩
    exact hle
  · intro hle
    exact ⟨a, b, rfl, rfl, hle⟩

@[simp] theorem number_lt_number [LT K] {a b : K} : number a < number b ↔ a < b := by
  constructor
  · rintro ⟨_, _, ⟨⟩, ⟨⟩, hlt⟩
    exact hlt
  · intro hlt
    exact ⟨a, b, rfl, rfl, hlt⟩

theorem Within.eq_value [Zero K] [LE K] {low high : K} {x : Exact K} (h : Within low high x) :
    x = number x.value ∧ low ≤ x.value ∧ x.value ≤ high := by
  obtain ⟨a, rfl, hbounds⟩ := h
  exact ⟨rfl, hbounds⟩

end Exact

namespace Competition

open Quantity Exact

variable {K : Type u} [Field K] [LinearOrder K] [Pow K K]

/-!
# Weights
-/

theorem leastTotal_eq : (leastTotal : K) = 1 / 10 ^ 9 := by
  show ((1 : Nat) : K) / 10 ^ 9 = _
  rw [Nat.cast_one]

theorem leastTotal_pos [IsStrictOrderedRing K] : (0 : K) < leastTotal := by
  rw [leastTotal_eq]
  positivity

def level (signals : Table (Exact K)) (method : String) : K :=
  (signalOf signals method).value

def weight (signals : Table (Exact K)) (tuning : Tuning (Exact K)) (method : String) : K :=
  level signals method ^ tuning.power.value

def totalWeight (methods : List String) (signals : Table (Exact K)) (tuning : Tuning (Exact K)) :
    K :=
  ((distinct methods).map (weight signals tuning)).sum

/-- The part of the total weight that a method has, or an equal part of nothing to speak of. -/
def portion (methods : List String) (signals : Table (Exact K)) (tuning : Tuning (Exact K))
    (method : String) : K :=
  if leastTotal < totalWeight methods signals tuning then
    weight signals tuning method / totalWeight methods signals tuning
  else
    1 / ((distinct methods).length : K)

section Portion

variable {methods : List String} {signals : Table (Exact K)} {tuning : Tuning (Exact K)}
  {method : String}

theorem portion_of_weighty (h : leastTotal < totalWeight methods signals tuning) :
    portion methods signals tuning method =
      weight signals tuning method / totalWeight methods signals tuning :=
  if_pos h

theorem portion_of_light (h : totalWeight methods signals tuning ≤ leastTotal) :
    portion methods signals tuning method = 1 / ((distinct methods).length : K) :=
  if_neg (not_lt_of_ge h)

theorem parts_weights (methods : List String) (signals : Table (Exact K))
    (tuning : Tuning (Exact K)) :
    parts leastTotal ((distinct methods).map (weight signals tuning)) =
      (distinct methods).map (portion methods signals tuning) := by
  rcases lt_or_ge leastTotal (totalWeight methods signals tuning) with hweighty | hlight
  · have hparts : parts leastTotal ((distinct methods).map (weight signals tuning)) =
        ((distinct methods).map (weight signals tuning)).map
          fun w => w / totalWeight methods signals tuning := if_pos hweighty
    rw [hparts, List.map_map]
    exact List.map_congr_left fun method _ => (portion_of_weighty hweighty).symm
  · have hparts : parts leastTotal ((distinct methods).map (weight signals tuning)) =
        ((distinct methods).map (weight signals tuning)).map
          fun _ => 1 / ((((distinct methods).map (weight signals tuning)).length : Nat) : K) :=
      if_neg (not_lt_of_ge hlight)
    rw [hparts, List.map_map, List.length_map]
    exact List.map_congr_left fun method _ => (portion_of_light hlight).symm

theorem totalWeight_pair {first second : String} (h : distinct methods = [first, second]) :
    totalWeight methods signals tuning =
      weight signals tuning first + weight signals tuning second := by
  unfold totalWeight
  rw [h]
  simp only [List.map_cons, List.map_nil, List.sum_cons, List.sum_nil, add_zero]

theorem length_pos_of_mem_methods (h : method ∈ methods) : 0 < (distinct methods).length :=
  List.length_pos_of_mem (mem_distinct.mpr h)

end Portion

/-!
# What is settled
-/

variable [IsStrictOrderedRing K]

omit [Pow K K] in
theorem multiplier_le_of_share_le {k v v' : K} (hk : k ≤ 1) (h : v ≤ v') :
    k + (1 - k) * v ≤ k + (1 - k) * v' := by
  have hrest : 0 ≤ 1 - k := by linarith
  have hpart := mul_le_mul_of_nonneg_left h hrest
  linarith

theorem weight_le_totalWeight {methods : List String} {signals : Table (Exact K)}
    {tuning : Tuning (Exact K)} {method : String} (hmethod : method ∈ methods)
    (hnonneg : ∀ other, 0 ≤ weight signals tuning other) :
    weight signals tuning method ≤ totalWeight methods signals tuning := by
  apply List.single_le_sum
  · intro w hw
    obtain ⟨other, _, rfl⟩ := List.mem_map.mp hw
    exact hnonneg other
  · exact List.mem_map_of_mem (mem_distinct.mpr hmethod)

theorem signalOf_eq_level (signals : Table (Exact K)) (method : String) :
    signalOf signals method = number (level signals method) :=
  (within_signalOf signals method).eq_value.1

theorem level_between (signals : Table (Exact K)) (method : String) :
    0 ≤ level signals method ∧ level signals method ≤ 1 :=
  (within_signalOf signals method).eq_value.2

theorem value_clampUnit (x : K) : (clampUnit (number x)).value = max 0 (min x 1) := by
  unfold clampUnit
  simp only [zero_eq, one_eq, lt_number, decide_eq_true_eq]
  split
  · rename_i hneg
    rw [min_eq_left (by linarith), max_eq_left hneg.le]
    rfl
  · rename_i hnonneg
    split
    · rename_i hlarge
      rw [min_eq_right hlarge.le, max_eq_right zero_le_one]
      rfl
    · rename_i hsmall
      rw [min_eq_left (not_lt.mp hsmall), max_eq_right (not_lt.mp hnonneg)]
      rfl

theorem level_of_number {signals : Table (Exact K)} {method : String} {x : K}
    (h : signals.get? method = some (number x)) : level signals method = max 0 (min x 1) := by
  rw [← value_clampUnit]
  unfold level signalOf
  rw [h]
  rfl

theorem power_eq_value (tuning : Tuning (Exact K)) :
    tuning.power = number tuning.power.value ∧ 1 / 100 ≤ tuning.power.value := by
  obtain ⟨p, hpower, hp⟩ := exists_power tuning
  rw [hpower]
  exact ⟨rfl, hp⟩

theorem power_of_number {p : K} (hp : 1 / 100 ≤ p) (keep? : Option (Exact K)) :
    (Tuning.power { power? := some (number p), minKeep? := keep? }).value = p := by
  have hleast : (Tuning.minPower : Exact K) = number (1 / 100) := by
    show number (((1 : Nat) : K) / 10 ^ 2) = _
    norm_num
  show (atLeast Tuning.minPower (number p)).value = p
  unfold atLeast
  rw [hleast, lt_number, decide_eq_false (not_lt_of_ge hp)]
  rfl

section Settled

variable {methods : List String} {signals : Table (Exact K)} {tuning : Tuning (Exact K)}
  {method : String}

theorem shares_settle : (settle methods signals tuning).shares =
    Table.ofList ((distinct methods).map fun method =>
      (method, number (portion methods signals tuning method))) := by
  have hweights : ((distinct methods).map (signalOf signals)).map (fun s => pow s tuning.power) =
      ((distinct methods).map (weight signals tuning)).map number := by
    rw [List.map_map, List.map_map]
    apply List.map_congr_left
    intro method _
    simp only [Function.comp_apply]
    rw [signalOf_eq_level, (power_eq_value tuning).1]
    rfl
  show Table.ofList ((distinct methods).zip (sharesOf (((distinct methods).map
    (signalOf signals)).map fun s => pow s tuning.power))) = _
  rw [hweights, sharesOf_map_number, ← leastTotal_eq, parts_weights, List.map_map,
    List.map_prod_left_eq_zip]
  rfl

theorem get?_shares_settle (hmethod : method ∈ methods) :
    (settle methods signals tuning).shares.get? method =
      some (number (portion methods signals tuning method)) := by
  rw [shares_settle]
  exact get?_ofList_map (nodup_distinct methods) _ (mem_distinct.mpr hmethod)

theorem share_settle (hmethod : method ∈ methods) :
    (settle methods signals tuning).share method =
      number (portion methods signals tuning method) := by
  unfold share
  rw [get?_shares_settle hmethod]
  rfl

theorem multiplier_settle (hmethod : method ∈ methods) :
    (settle methods signals tuning).multiplier method =
      number (tuning.minKeep.value +
        (1 - tuning.minKeep.value) * portion methods signals tuning method) := by
  have hkeep := (within_minKeep tuning).eq_value.1
  unfold multiplier
  show ((Table.mapValues (multiplierOf tuning.minKeep)
    (settle methods signals tuning).shares).get? method).getD one = _
  rw [Table.get?_mapValues, get?_shares_settle hmethod, hkeep]
  simp [multiplierOf, value]

end Settled

end Competition
end Reckoner
