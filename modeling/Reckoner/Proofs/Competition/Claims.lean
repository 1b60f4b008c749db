import Reckoner.Proofs.Competition.Conservation
import Reckoner.Proofs.Competition.Shares

/-!
# The order of claims

Keys are claimed method after method, and for one method in the order in which it lists
them.  A key is claimed where it is listed first, so every claimed score is multiplied
once: by the multiplier of the first method that lists its key, times one scale for all.
This holds of quantities with any rounding, since the two sums behind the scale are taken
in the order of the claims.
-/

namespace Reckoner
namespace Competition

universe u

open Quantity

variable {α : Type u}

def listed (keys : Table (List String)) (method : String) : List String :=
  (keys.get? method).getD []

def listedKeys (c : Competition α) (keys : Table (List String)) : List String :=
  c.methods.flatMap (listed keys)

def claimedKeys (c : Competition α) (keys : Table (List String)) (scores : Table α) :
    List String :=
  (distinct (c.listedKeys keys)).filter fun key => scores.contains key

/-- A method governs a key if it lists the key and no method before it does. -/
def Governs (c : Competition α) (keys : Table (List String)) (method key : String) : Prop :=
  ∃ earlier later, c.methods = earlier ++ method :: later ∧ key ∈ listed keys method ∧
    ∀ other ∈ earlier, key ∉ listed keys other

/-!
# Which keys are claimed
-/

section Keys

variable (c : Competition α) (keys : Table (List String))

theorem mem_listedKeys {key : String} :
    key ∈ c.listedKeys keys ↔ ∃ method ∈ c.methods, key ∈ listed keys method :=
  List.mem_flatMap

theorem mem_claimedKeys {scores : Table α} {key : String} :
    key ∈ c.claimedKeys keys scores ↔
      key ∈ scores.keys ∧ ∃ method ∈ c.methods, key ∈ listed keys method := by
  unfold claimedKeys
  rw [List.mem_filter, mem_distinct, mem_listedKeys, Table.contains_iff_mem_keys, and_comm]

theorem pairwise_claimedKeys (scores : Table α) :
    (c.claimedKeys keys scores).Pairwise fun a b =>
      (c.listedKeys keys).idxOf a < (c.listedKeys keys).idxOf b :=
  (pairwise_distinct (c.listedKeys keys)).sublist List.filter_sublist

theorem governor_eq_some_iff {method key : String} :
    c.governor keys key = some method ↔ c.Governs keys method key := by
  unfold governor Governs
  rw [List.find?_eq_some_iff_append]
  constructor
  · intro h
    rcases h with ⟨hlists, earlier, later, hmethods, hfree⟩
    exact ⟨earlier, later, hmethods, by simpa [listed] using hlists, by simpa [listed] using hfree⟩
  · intro h
    rcases h with ⟨earlier, later, hmethods, hlists, hfree⟩
    exact ⟨by simpa [listed] using hlists, earlier, later, hmethods, by simpa [listed] using hfree⟩

theorem governor_eq_none_iff {key : String} :
    c.governor keys key = none ↔ ¬ ∃ method ∈ c.methods, key ∈ listed keys method := by
  simp [governor, listed]

end Keys

/-!
# The claims in their order
-/

section Order

/-- A listing is added at the end of the claims if its key is a new one with a score. -/
theorem keys_foldl_claim (scores : Table α) (listings : List (String × α)) :
    Table.keys (listings.foldl (claim scores) []) =
      (distinct (Table.keys listings)).filter fun key => scores.contains key := by
  induction listings using List.reverseRecOn with
  | nil => rfl
  | append_singleton listings last ih =>
      have hkeys (entries : List (String × α)) :
          Table.keys (entries ++ [last]) = Table.keys entries ++ [last.1] := List.map_append
      have hold : Table.contains (listings.foldl (claim scores) []) last.1 = true ↔
          last.1 ∈ distinct (Table.keys listings) ∧ scores.contains last.1 = true := by
        rw [Table.contains_iff_mem_keys, ih, List.mem_filter]
      rw [List.foldl_append, List.foldl_cons, List.foldl_nil, hkeys, distinct_concat, claim]
      by_cases hscore : scores.contains last.1 = true
      · by_cases hseen : last.1 ∈ distinct (Table.keys listings)
        · have hclaimed := hold.mpr ⟨hseen, hscore⟩
          simp [hscore, hseen, hclaimed, ih]
        · have hnew : Table.contains (listings.foldl (claim scores) []) last.1 = false := by
            simp [← Bool.not_eq_true, hold, hseen]
          simp [hscore, hseen, hnew, hkeys, ih]
      · by_cases hseen : last.1 ∈ distinct (Table.keys listings)
        · simp [hscore, hseen, ih]
        · simp [hscore, hseen, ih]

variable [Quantity α] (c : Competition α) (keys : Table (List String)) (scores : Table α)

theorem keys_listings : Table.keys (c.listings keys) = c.listedKeys keys := by
  unfold listings listedKeys Table.keys
  rw [List.map_flatMap]
  simp only [List.map_map, Function.comp_def, List.map_id']
  rfl

theorem keys_claims : Table.keys (c.claims keys scores) = c.claimedKeys keys scores := by
  unfold claimedKeys
  rw [← keys_listings]
  exact keys_foldl_claim scores (c.listings keys)

theorem governing_of_governs {method key : String} (h : c.Governs keys method key) :
    c.governing keys key = c.multiplier method := by
  rw [governing, (c.governor_eq_some_iff keys).mpr h]
  rfl

/-- Every claimed key is claimed with the multiplier of the method that governs it. -/
theorem claims_eq : c.claims keys scores =
    (c.claimedKeys keys scores).map fun key => (key, c.governing keys key) := by
  have hgoverned : ∀ claim ∈ c.claims keys scores, claim = (claim.1, c.governing keys claim.1) := by
    intro claim hclaim
    have hget := Table.get?_of_mem (nodup_claims c keys scores) hclaim
    rw [get?_claims] at hget
    split at hget
    · rw [governing, hget]
      rfl
    · cases hget
  rw [← keys_claims, Table.keys, List.map_map]
  exact (List.map_id _).symm.trans (List.map_congr_left hgoverned)

theorem scaleOf_claims_in_order : scaleOf (c.claims keys scores) scores =
    scaleBetween
      (sum ((c.claimedKeys keys scores).map fun key => (scores.get? key).getD zero))
      (sum ((c.claimedKeys keys scores).map fun key =>
        mul ((scores.get? key).getD zero) (c.governing keys key))) := by
  rw [claims_eq]
  simp only [scaleOf, List.map_map, Function.comp_def]

end Order

/-!
# One factor for every score
-/

section Once

variable [Quantity α] (c : Competition α) (keys : Table (List String)) {scores : Table α}

theorem get?_transfer_of_governs {method key : String} {score : α}
    (h : c.Governs keys method key) (hscore : scores.get? key = some score) :
    (c.transfer keys scores).get? key = some (mul score (mul (c.multiplier method)
      (scaleOf (c.claims keys scores) scores))) := by
  have hgovernor := (c.governor_eq_some_iff keys).mpr h
  rw [get?_transfer, hscore, Option.map_some, move, hgovernor,
    Option.isSome_some, if_pos rfl, governing_of_governs c keys h]

theorem get?_transfer_of_not_mem {key : String} (h : key ∉ c.claimedKeys keys scores) :
    (c.transfer keys scores).get? key = scores.get? key := by
  cases hscore : scores.get? key with
  | none => rw [get?_transfer, hscore, Option.map_none]
  | some score =>
      have hmem : key ∈ scores.keys := List.mem_map_of_mem (Table.mem_of_get? hscore)
      have hfree : c.governor keys key = none := by
        rw [governor_eq_none_iff]
        intro hlisted
        exact h ((c.mem_claimedKeys keys).mpr ⟨hmem, hlisted⟩)
      rw [get?_transfer_of_free c keys hfree, hscore]

end Once

/-- Claimed are the listed keys with a score, in the order in which they are listed first.  Their
scores are multiplied once, by the multiplier of the first method that lists the key times the scale
between the sums of the claimed scores, and nothing else changes. -/
theorem transfer_scales_once [Quantity α] (c : Competition α) (keys : Table (List String))
    (scores : Table α) :
    let claimed := c.claimedKeys keys scores
    let old := fun key => (scores.get? key).getD zero
    let scale := scaleBetween (sum (claimed.map old))
      (sum (claimed.map fun key => mul (old key) (c.governing keys key)))
    let after := c.transfer keys scores
    (∀ key, key ∈ claimed ↔
      key ∈ scores.keys ∧ ∃ method ∈ c.methods, key ∈ listed keys method) ∧
    (claimed.Pairwise fun a b =>
      (c.listedKeys keys).idxOf a < (c.listedKeys keys).idxOf b) ∧
    (∀ key ∈ claimed, ∃ score method,
      scores.get? key = some score ∧ c.Governs keys method key ∧
      c.governing keys key = c.multiplier method ∧
      after.get? key = some (mul score (mul (c.multiplier method) scale))) ∧
    (∀ key, key ∉ claimed -> after.get? key = scores.get? key) ∧
    after.keys = scores.keys := by
  intro claimed old scale after
  have hscale : scaleOf (c.claims keys scores) scores = scale :=
    scaleOf_claims_in_order c keys scores
  constructor
  · intro key
    exact c.mem_claimedKeys keys
  constructor
  · exact c.pairwise_claimedKeys keys scores
  constructor
  · intro key hkey
    rcases (c.mem_claimedKeys keys).mp hkey with ⟨hmem, hlisted⟩
    rcases Option.isSome_iff_exists.mp (Table.contains_iff_mem_keys.mpr hmem) with ⟨score, hscore⟩
    cases hgovernor : c.governor keys key with
    | none => exact absurd hlisted ((c.governor_eq_none_iff keys).mp hgovernor)
    | some method =>
        have hgoverns := (c.governor_eq_some_iff keys).mp hgovernor
        have hmoved := get?_transfer_of_governs c keys hgoverns hscore
        rw [hscale] at hmoved
        exact ⟨score, method, hscore, hgoverns, governing_of_governs c keys hgoverns, hmoved⟩
  constructor
  · intro key hkey
    exact get?_transfer_of_not_mem c keys hkey
  · exact keys_transfer c keys scores

/-- A repeated method that lists a key twice, and a method without a multiplier that lists the key
again. -/
theorem transfer_scales_once_shared :
    let c : Competition Float :=
      { methods := ["a", "b", "a"], power := 2, minKeep := 0, multipliers := [("a", 0.5)] }
    let keys : Table (List String) := [("a", ["x", "x"]), ("b", ["y", "x", "missing"])]
    let scores : Table Float := [("x", 3), ("y", 2), ("z", -0.0)]
    let after := c.transfer keys scores
    c.claimedKeys keys scores = ["x", "y"] ∧
      after.get? "x" = some (3 * (0.5 * (5 / 3.5))) ∧
      after.get? "y" = some (2 * (1 * (5 / 3.5))) ∧
      after.get? "z" = some (-0.0) := by
  intro c keys scores after
  rcases transfer_scales_once c keys scores with ⟨_, _, hclaimed, hfree, _⟩
  have hkeys : c.claimedKeys keys scores = ["x", "y"] := by decide
  have hscale : scaleBetween (α := Float) (sum [3, 2]) (sum [3 * 0.5, 2 * 1]) = 5 / 3.5 := by
    decide +kernel
  rcases hclaimed "x" (by decide) with ⟨x, first, hx, _, hfirst, hmovedX⟩
  rcases hclaimed "y" (by decide) with ⟨y, second, hy, _, hsecond, hmovedY⟩
  rw [← hfirst] at hmovedX
  rw [← hsecond] at hmovedY
  cases hx
  cases hy
  rw [← hscale]
  exact ⟨hkeys, hmovedX, hmovedY, hfree "z" (by decide)⟩

end Competition
end Reckoner
