import Reckoner.Competition.Transfer
import Reckoner.Proofs.Table
import Reckoner.Proofs.Competition.Exact
import Mathlib.Algebra.BigOperators.Ring.List
import Mathlib.Data.List.Perm.Basic
import Mathlib.Analysis.SpecialFunctions.Pow.Real

/-!
# Conservation of scores

A key is governed by the first method that lists it, and a score is claimed if its
key is governed.  In exact arithmetic a transfer multiplies every claimed score by the
multiplier of its method and by one scale for all, whatever else is listed, how often
and where.  So the claimed scores keep their sum if there is something to scale, and
nothing else changes.
-/

namespace Reckoner
namespace Competition

universe u

open Quantity

/-!
# Claims

A listing becomes a claim if there is a score under its key and its key is new.
-/

section Claims

variable {α : Type u}

def claim (scores : Table α) (claims : List (String × α)) (listing : String × α) :
    List (String × α) :=
  if scores.contains listing.1 && !Table.contains claims listing.1 then
    claims ++ [listing]
  else
    claims

theorem get?_claim_self (scores : Table α) (claims : List (String × α))
    (listing : String × α) :
    Table.get? (claim scores claims listing) listing.1 =
      (Table.get? claims listing.1).or
        (if scores.contains listing.1 then some listing.2 else none) := by
  have hself : Table.get? [listing] listing.1 = some listing.2 := if_pos rfl
  unfold claim
  by_cases hscore : scores.contains listing.1 = true
  · cases hclaims : Table.get? claims listing.1 with
    | none =>
        have hnew : Table.contains claims listing.1 = false := by
          rw [Table.contains, hclaims]
          rfl
        simp [hscore, hnew, Table.get?_append, hclaims, hself]
    | some found =>
        have hold : Table.contains claims listing.1 = true := by
          rw [Table.contains, hclaims]
          rfl
        simp [hscore, hold, hclaims]
  · simp [hscore]

theorem get?_claim_of_ne (scores : Table α) (claims : List (String × α))
    {listing : String × α} {key : String} (hne : listing.1 ≠ key) :
    Table.get? (claim scores claims listing) key = Table.get? claims key := by
  have hother : Table.get? [listing] key = none := if_neg hne
  unfold claim
  split
  · rw [Table.get?_append, hother, Option.or_none]
  · rfl

theorem get?_foldl_claim (scores : Table α) (listings claims : List (String × α))
    (key : String) :
    Table.get? (listings.foldl (claim scores) claims) key =
      (Table.get? claims key).or
        (if scores.contains key then Table.get? listings key else none) := by
  induction listings generalizing claims with
  | nil => simp [Table.get?]
  | cons listing rest ih =>
      rw [List.foldl_cons, ih]
      by_cases hsame : listing.1 = key
      · have hhead : Table.get? (listing :: rest) key = some listing.2 := if_pos hsame
        rw [hhead, ← hsame, get?_claim_self, Option.or_assoc]
        by_cases hscore : scores.contains listing.1 = true
        · simp [hscore]
        · simp [hscore]
      · have htail : Table.get? (listing :: rest) key = Table.get? rest key := if_neg hsame
        rw [htail, get?_claim_of_ne scores claims hsame]

theorem nodup_foldl_claim (scores : Table α) (listings : List (String × α))
    {claims : List (String × α)} (hclaims : (Table.keys claims).Nodup) :
    (Table.keys (listings.foldl (claim scores) claims)).Nodup := by
  induction listings generalizing claims with
  | nil => exact hclaims
  | cons listing rest ih =>
      apply ih
      unfold claim
      split
      · rename_i hnew
        have hfresh : listing.1 ∉ Table.keys claims := by
          intro hmem
          have hcontains := Table.contains_iff_mem_keys.mpr hmem
          simp [hcontains] at hnew
        have hkeys : Table.keys (claims ++ [listing]) = (Table.keys claims).concat listing.1 := by
          simp [Table.keys]
        rw [hkeys]
        exact hclaims.concat hfresh
      · exact hclaims

end Claims

/-!
# Governed keys
-/

section Governed

variable {α : Type u}

theorem get?_map_pair (names : List String) (value : α) (name : String) :
    Table.get? (names.map fun name => (name, value)) name =
      if name ∈ names then some value else none := by
  induction names with
  | nil => rfl
  | cons first rest ih =>
      show (if first = name then some value else Table.get? _ name) = _
      by_cases hsame : first = name
      · simp [hsame]
      · rw [if_neg hsame, ih]
        simp [Ne.symm hsame]

def governor (c : Competition α) (keys : Table (List String)) (key : String) : Option String :=
  c.methods.find? fun method => key ∈ (keys.get? method).getD []

def claimed (c : Competition α) (keys : Table (List String)) (scores : Table α) : Table α :=
  List.filter (fun entry => (c.governor keys entry.1).isSome) scores

def unclaimed (c : Competition α) (keys : Table (List String)) (scores : Table α) : Table α :=
  List.filter (fun entry => !(c.governor keys entry.1).isSome) scores

variable [Quantity α] (c : Competition α) (keys : Table (List String))

/-- The multiplier of the method that governs a key. -/
def governing (key : String) : α :=
  ((c.governor keys key).map c.multiplier).getD one

def attenuated (scores : Table α) : Table α :=
  (c.claimed keys scores).map fun entry => (entry.1, mul entry.2 (c.governing keys entry.1))

theorem get?_listings (key : String) :
    Table.get? (c.listings keys) key = (c.governor keys key).map c.multiplier := by
  unfold listings governor
  induction c.methods with
  | nil => rfl
  | cons method rest ih =>
      rw [List.flatMap_cons, Table.get?_append, get?_map_pair, ih, List.find?_cons]
      by_cases hlisted : key ∈ (keys.get? method).getD []
      · simp [hlisted]
      · simp [hlisted]

theorem get?_claims (scores : Table α) (key : String) :
    Table.get? (c.claims keys scores) key =
      if scores.contains key then (c.governor keys key).map c.multiplier else none := by
  rw [← get?_listings]
  exact get?_foldl_claim scores (c.listings keys) [] key

theorem nodup_claims (scores : Table α) : (Table.keys (c.claims keys scores)).Nodup :=
  nodup_foldl_claim scores (c.listings keys) List.nodup_nil

/-- Every claimed score is claimed once, by the method that governs its key. -/
theorem claims_perm {scores : Table α} (hscores : scores.keys.Nodup) :
    (c.claims keys scores).Perm
      ((c.claimed keys scores).map fun entry => (entry.1, c.governing keys entry.1)) := by
  have hkeys : (Table.keys ((c.claimed keys scores).map fun entry =>
      (entry.1, c.governing keys entry.1))).Nodup := by
    have hsublist : (Table.keys ((c.claimed keys scores).map fun entry =>
        (entry.1, c.governing keys entry.1))).Sublist scores.keys := by
      simp only [Table.keys, List.map_map]
      exact List.filter_sublist.map Prod.fst
    exact hscores.sublist hsublist
  apply (List.perm_ext_iff_of_nodup (nodup_claims c keys scores).of_map hkeys.of_map).mpr
  rintro ⟨key, multiplier⟩
  rw [List.mem_map]
  constructor
  · intro hmem
    have hget := Table.get?_of_mem (nodup_claims c keys scores) hmem
    rw [get?_claims] at hget
    split at hget
    · rename_i hcontains
      obtain ⟨score, hscore⟩ := Option.isSome_iff_exists.mp hcontains
      have hgoverned : (c.governor keys key).isSome := by
        have hsome := Option.isSome_of_eq_some hget
        rwa [Option.isSome_map] at hsome
      refine ⟨(key, score), List.mem_filter.mpr ⟨Table.mem_of_get? hscore, hgoverned⟩, ?_⟩
      simp only [governing]
      rw [hget]
      rfl
    · cases hget
  · rintro ⟨entry, hentry, heq⟩
    obtain ⟨hmem, hgoverned⟩ := List.mem_filter.mp hentry
    have hcontains : scores.contains entry.1 = true :=
      Table.contains_iff_mem_keys.mpr (List.mem_map_of_mem hmem)
    obtain ⟨method, hmethod⟩ := Option.isSome_iff_exists.mp hgoverned
    cases heq
    apply Table.mem_of_get?
    rw [get?_claims, if_pos hcontains, governing, hmethod]
    rfl

/-!
# What a transfer does to one score
-/

def move (scale : α) (entry : String × α) : String × α :=
  if (c.governor keys entry.1).isSome then
    (entry.1, mul entry.2 (mul (c.governing keys entry.1) scale))
  else
    entry

@[simp] theorem move_fst (scale : α) (entry : String × α) :
    (c.move keys scale entry).1 = entry.1 := by
  unfold move
  split
  · rfl
  · rfl

theorem transfer_eq (scores : Table α) :
    c.transfer keys scores =
      scores.map (c.move keys (scaleOf (c.claims keys scores) scores)) := by
  unfold transfer
  apply List.map_congr_left
  intro entry hentry
  have hcontains : scores.contains entry.1 = true :=
    Table.contains_iff_mem_keys.mpr (List.mem_map_of_mem hentry)
  rw [get?_claims, if_pos hcontains, move, governing]
  cases c.governor keys entry.1 with
  | none => rfl
  | some method => rfl

theorem keys_transfer (scores : Table α) : (c.transfer keys scores).keys = scores.keys := by
  rw [transfer_eq]
  simp only [Table.keys, List.map_map]
  apply List.map_congr_left
  intro entry _
  exact c.move_fst keys _ entry

theorem claimed_transfer (scores : Table α) :
    c.claimed keys (c.transfer keys scores) = (c.claimed keys scores).map fun entry =>
      (entry.1, mul entry.2 (mul (c.governing keys entry.1)
        (scaleOf (c.claims keys scores) scores))) := by
  rw [transfer_eq, claimed, List.filter_map]
  simp only [Function.comp_def, move_fst]
  apply List.map_congr_left
  intro entry hentry
  exact if_pos (List.mem_filter.mp hentry).2

theorem unclaimed_transfer (scores : Table α) :
    c.unclaimed keys (c.transfer keys scores) = c.unclaimed keys scores := by
  rw [transfer_eq, unclaimed, List.filter_map]
  simp only [Function.comp_def, move_fst]
  apply (List.map_congr_left _).trans (List.map_id _)
  intro entry hentry
  have hfree := (List.mem_filter.mp hentry).2
  rw [Bool.not_eq_true'] at hfree
  rw [move, hfree]
  rfl

theorem get?_transfer (scores : Table α) (key : String) :
    (c.transfer keys scores).get? key = (scores.get? key).map fun score =>
      (c.move keys (scaleOf (c.claims keys scores) scores) (key, score)).2 := by
  rw [transfer_eq]
  generalize scaleOf (c.claims keys scores) scores = scale
  induction scores with
  | nil => rfl
  | cons entry rest ih =>
      rw [List.map_cons]
      show (if (c.move keys scale entry).1 = key then some (c.move keys scale entry).2
        else Table.get? _ key) = (if entry.1 = key then some entry.2
        else Table.get? rest key).map _
      rw [move_fst, ih]
      split
      · rename_i hsame
        rw [← hsame]
        rfl
      · rfl

theorem get?_transfer_of_free {key : String} (hfree : c.governor keys key = none)
    (scores : Table α) : (c.transfer keys scores).get? key = scores.get? key := by
  have hkept (score : α) :
      (c.move keys (scaleOf (c.claims keys scores) scores) (key, score)).2 = score := by
    rw [move, hfree]
    rfl
  rw [get?_transfer]
  simp only [hkept, Option.map_id']

end Governed

/-!
# Sums
-/

section Sums

variable {K : Type u} [Field K]

def mass (scores : Table K) : K :=
  scores.values.sum

theorem mass_claimed_add_unclaimed (c : Competition K) (keys : Table (List String))
    (scores : Table K) :
    mass (c.claimed keys scores) + mass (c.unclaimed keys scores) = mass scores := by
  induction scores with
  | nil => exact add_zero 0
  | cons entry rest ih =>
      have hcons : mass (entry :: rest) = entry.2 + mass rest := List.sum_cons
      rw [hcons, ← ih]
      unfold claimed unclaimed
      rw [List.filter_cons, List.filter_cons]
      cases (c.governor keys entry.1).isSome with
      | true => exact add_assoc _ _ _
      | false => exact add_left_comm _ _ _

variable [LinearOrder K] [Pow K K]

theorem scaleBetween_eq (before after : K) :
    scaleBetween before after =
      if 0 < before ∧ 1 / 10 ^ 12 < after then before / after else 1 := by
  have hzero : (zero : K) = 0 := Nat.cast_zero
  have hone : (one : K) = 1 := Nat.cast_one
  have hleast : (leastMass : K) = 1 / 10 ^ 12 := by
    show ((1 : Nat) : K) / 10 ^ 12 = _
    rw [Nat.cast_one]
  have hfinite (x : K) : isFinite x = true := rfl
  have hlt (x y : K) : lt x y = decide (x < y) := rfl
  simp only [scaleBetween, hfinite, hlt, hzero, hone, hleast, Bool.true_and, Bool.and_eq_true,
    decide_eq_true_eq]
  rfl

variable (c : Competition K) (keys : Table (List String))

theorem scaleOf_claims {scores : Table K} (hscores : scores.keys.Nodup) :
    scaleOf (c.claims keys scores) scores =
      scaleBetween (mass (c.claimed keys scores)) (mass (c.attenuated keys scores)) := by
  have hclaims := c.claims_perm keys hscores
  have hold {entry : String × K} (hentry : entry ∈ c.claimed keys scores) :
      (scores.get? entry.1).getD zero = entry.2 := by
    rw [Table.get?_of_mem hscores (List.mem_of_mem_filter hentry)]
    rfl
  have hbefore : ((c.claims keys scores).map fun claim => (scores.get? claim.1).getD zero).sum =
      mass (c.claimed keys scores) := by
    rw [(hclaims.map _).sum_eq, List.map_map]
    exact congrArg List.sum (List.map_congr_left fun entry hentry => hold hentry)
  have hafter : ((c.claims keys scores).map fun claim =>
      mul ((scores.get? claim.1).getD zero) claim.2).sum = mass (c.attenuated keys scores) := by
    rw [(hclaims.map _).sum_eq, List.map_map, mass, Table.values, attenuated, List.map_map]
    refine congrArg List.sum (List.map_congr_left fun entry hentry => ?_)
    simp only [Function.comp_apply, hold hentry]
  rw [← hbefore, ← hafter, ← sum_eq_sum, ← sum_eq_sum]
  rfl

theorem mass_claimed_transfer {scores : Table K} (hscores : scores.keys.Nodup) :
    mass (c.claimed keys (c.transfer keys scores)) =
      mass (c.attenuated keys scores) *
        scaleBetween (mass (c.claimed keys scores)) (mass (c.attenuated keys scores)) := by
  rw [claimed_transfer, scaleOf_claims c keys hscores]
  generalize scaleBetween (mass (c.claimed keys scores)) (mass (c.attenuated keys scores)) = scale
  simp only [mass, Table.values, attenuated, List.map_map]
  rw [← List.sum_map_mul_right]
  refine congrArg List.sum (List.map_congr_left fun entry _ => ?_)
  exact (mul_assoc entry.2 (c.governing keys entry.1) scale).symm

end Sums

/-!
# Conservation
-/

theorem transfer_conserves {K : Type u} [Field K] [LinearOrder K] [IsStrictOrderedRing K]
    [Pow K K] (c : Competition K) (keys : Table (List String)) {scores : Table K}
    (hscores : scores.Sorted) :
    let before := mass (c.claimed keys scores)
    let attenuated := mass (c.attenuated keys scores)
    let after := c.transfer keys scores
    (0 < before ∧ 1 / 10 ^ 12 < attenuated ->
      mass (c.claimed keys after) = before ∧ mass after = mass scores) ∧
    (¬ (0 < before ∧ 1 / 10 ^ 12 < attenuated) -> mass (c.claimed keys after) = attenuated) ∧
    after.keys = scores.keys ∧
    ∀ key, c.governor keys key = none -> after.get? key = scores.get? key := by
  intro before attenuated after
  have hclaimed := mass_claimed_transfer c keys hscores.nodup_keys
  refine ⟨?_, ?_, keys_transfer c keys scores,
    fun key hfree => get?_transfer_of_free c keys hfree scores⟩
  · rintro ⟨hbefore, hattenuated⟩
    have hpositive : 0 < attenuated := lt_trans (by positivity) hattenuated
    have hrestored : mass (c.claimed keys after) = before := by
      rw [hclaimed, scaleBetween_eq, if_pos ⟨hbefore, hattenuated⟩]
      exact mul_div_cancel₀ before hpositive.ne'
    refine ⟨hrestored, ?_⟩
    rw [← mass_claimed_add_unclaimed c keys after, ← mass_claimed_add_unclaimed c keys scores,
      hrestored, unclaimed_transfer]
  · intro hnothing
    rw [hclaimed, scaleBetween_eq, if_neg hnothing, mul_one]

/-- Two methods that share a key, list it twice, and list a key without a score. -/
theorem transfer_conserves_shared :
    let c : Competition ℝ :=
      { methods := ["a", "b"], power := 2, minKeep := 0,
        multipliers := [("a", 1 / 2), ("b", 1 / 4)] }
    let keys : Table (List String) := [("a", ["x", "x"]), ("b", ["x", "y", "missing"])]
    let scores : Table ℝ := [("x", 3), ("y", 2), ("z", -1)]
    scores.Sorted ∧
      mass (c.claimed keys scores) = 5 ∧ mass (c.attenuated keys scores) = 2 ∧
      mass (c.claimed keys (c.transfer keys scores)) = 5 ∧
      mass (c.transfer keys scores) = mass scores ∧
      (c.transfer keys scores).get? "z" = some (-1) := by
  intro c keys scores
  have hsorted : scores.Sorted := by decide
  have hclaimed : mass (c.claimed keys scores) = 5 := by
    show ([3, 2] : List ℝ).sum = 5
    norm_num
  have hattenuated : mass (c.attenuated keys scores) = 2 := by
    show ([3 * (1 / 2), 2 * (1 / 4)] : List ℝ).sum = 2
    norm_num
  obtain ⟨hconserved, _, _, hfree⟩ := transfer_conserves c keys hsorted
  rw [hclaimed, hattenuated] at hconserved
  obtain ⟨hsum, htotal⟩ := hconserved (by norm_num)
  refine ⟨hsorted, hclaimed, hattenuated, hsum, htotal, ?_⟩
  rw [hfree "z" rfl]
  rfl

end Competition
end Reckoner
