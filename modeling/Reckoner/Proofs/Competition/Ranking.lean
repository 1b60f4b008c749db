import Reckoner.Proofs.Competition.Weights

/-!
# Rankings

In exact arithmetic the shares and the multipliers rank the methods as their signals do,
whether the methods share by weight or alike, and methods with the same signal have the
same share.  What a method gets depends on which methods there are, and neither on their
order nor on repetitions.
-/

namespace Reckoner
namespace Competition

universe u

open Quantity Exact

/-!
# The same names in another order
-/

section Names

variable {names others : List String}

theorem distinct_perm (h : ∀ name, name ∈ others ↔ name ∈ names) :
    (distinct others).Perm (distinct names) := by
  apply (List.perm_ext_iff_of_nodup (nodup_distinct others) (nodup_distinct names)).mpr
  intro name
  rw [mem_distinct, mem_distinct, h]

theorem ofList_map_distinct {α : Type u} (h : ∀ name, name ∈ others ↔ name ∈ names)
    (f : String -> α) :
    Table.ofList ((distinct others).map fun name => (name, f name)) =
      Table.ofList ((distinct names).map fun name => (name, f name)) := by
  have hkeys : (Table.keys ((distinct names).map fun name => (name, f name))).Nodup := by
    rw [keys_map_entry]
    exact nodup_distinct names
  apply Table.ofList_of_perm _ (Table.sorted_ofList _)
  exact ((distinct_perm h).map _).trans (Table.ofList_perm hkeys).symm

end Names

section Ranking

variable {K : Type u} [Field K] [LinearOrder K] [Pow K K]
  {methods others : List String} {signals : Table (Exact K)} {tuning : Tuning (Exact K)}

theorem totalWeight_of_same_names (h : ∀ name, name ∈ others ↔ name ∈ methods) :
    totalWeight others signals tuning = totalWeight methods signals tuning :=
  ((distinct_perm h).map _).sum_eq

theorem portion_of_same_names (h : ∀ name, name ∈ others ↔ name ∈ methods) :
    portion others signals tuning = portion methods signals tuning := by
  funext method
  unfold portion
  rw [totalWeight_of_same_names h, (distinct_perm h).length_eq]

/-!
# Levels, weights and portions
-/

variable {i j : String}

theorem portion_eq_of_level_eq (h : level signals i = level signals j) :
    portion methods signals tuning i = portion methods signals tuning j := by
  unfold portion weight
  rw [h]

variable [IsStrictOrderedRing K]

theorem portion_le_of_weight_le (h : weight signals tuning i ≤ weight signals tuning j) :
    portion methods signals tuning i ≤ portion methods signals tuning j := by
  cases lt_or_ge leastTotal (totalWeight methods signals tuning) with
  | inl hweighty =>
      rw [portion_of_weighty hweighty, portion_of_weighty hweighty]
      exact div_le_div_of_nonneg_right h (leastTotal_pos.trans hweighty).le
  | inr hlight =>
      rw [portion_of_light hlight, portion_of_light hlight]

/-!
# What is settled for two methods
-/

theorem settle_of_level_eq (hi : i ∈ methods) (hj : j ∈ methods)
    (h : level signals i = level signals j) :
    let c := settle methods signals tuning
    c.share i = c.share j ∧ c.multiplier i = c.multiplier j := by
  intro c
  have hportion : portion methods signals tuning i = portion methods signals tuning j :=
    portion_eq_of_level_eq h
  rw [share_settle hi, share_settle hj, multiplier_settle hi, multiplier_settle hj, hportion]
  exact ⟨rfl, rfl⟩

theorem settle_of_weight_le (hi : i ∈ methods) (hj : j ∈ methods)
    (h : weight signals tuning i ≤ weight signals tuning j) :
    let c := settle methods signals tuning
    c.share i ≤ c.share j ∧ c.multiplier i ≤ c.multiplier j := by
  intro c
  rcases (within_minKeep tuning).eq_value with ⟨_, _, hkeep⟩
  have hportion : portion methods signals tuning i ≤ portion methods signals tuning j :=
    portion_le_of_weight_le h
  rw [share_settle hi, share_settle hj, multiplier_settle hi, multiplier_settle hj,
    number_le_number, number_le_number]
  exact ⟨hportion, multiplier_le_of_share_le hkeep hportion⟩

theorem settle_of_same_names (h : ∀ name, name ∈ others ↔ name ∈ methods) :
    let c := settle methods signals tuning
    let c' := settle others signals tuning
    c'.signals = c.signals ∧ c'.shares = c.shares ∧ c'.multipliers = c.multipliers := by
  intro c c'
  have hsignals : c'.signals = c.signals := by
    rw [signals_settle, signals_settle, ofList_map_distinct h]
  have hshares : c'.shares = c.shares := by
    rw [shares_settle, shares_settle, portion_of_same_names h, ofList_map_distinct h]
  exact ⟨hsignals, hshares, congrArg (Table.mapValues (multiplierOf tuning.minKeep)) hshares⟩

end Ranking

/-- Of two methods the one with the greater signal has no smaller share and multiplier, and methods
with one signal have one share.  The tables stay the same if methods are reordered or repeated. -/
theorem settle_keeps_ranking {K : Type u} [Field K] [LinearOrder K] [IsStrictOrderedRing K]
    [Pow K K] (hpow : ∀ s t p : K, 0 ≤ s -> s ≤ t -> t ≤ 1 -> 1 / 100 ≤ p -> s ^ p ≤ t ^ p)
    (methods : List String) (signals : Table (Exact K)) (tuning : Tuning (Exact K)) :
    let c := settle methods signals tuning
    (∀ i ∈ c.methods, ∀ j ∈ c.methods, ∃ s t,
      c.signals.get? i = some s ∧ c.signals.get? j = some t ∧
      (s ≤ t -> c.share i ≤ c.share j ∧ c.multiplier i ≤ c.multiplier j) ∧
      (s = t -> c.share i = c.share j ∧ c.multiplier i = c.multiplier j)) ∧
    ∀ others, (∀ name, name ∈ others ↔ name ∈ methods) ->
      let c' := settle others signals tuning
      c'.signals = c.signals ∧ c'.shares = c.shares ∧ c'.multipliers = c.multipliers := by
  intro c
  constructor
  · intro i hi j hj
    have hi : i ∈ methods := mem_distinct.mp hi
    have hj : j ∈ methods := mem_distinct.mp hj
    refine ⟨_, _, get?_signals_settle hi, get?_signals_settle hj, ?_, ?_⟩
    · intro hle
      rw [signalOf_eq_level, signalOf_eq_level, number_le_number] at hle
      have hpower := (power_eq_value tuning).2
      apply settle_of_weight_le hi hj
      exact hpow _ _ _ (level_between signals i).1 hle (level_between signals j).2 hpower
    · intro heq
      exact settle_of_level_eq hi hj (congrArg Exact.value heq)
  · intro others hothers
    exact settle_of_same_names hothers

/-- Real powers, a signal out of range, one that is not finite, and a repeated method. -/
theorem settle_keeps_ranking_real :
    let methods := ["a", "b", "c"]
    let signals : Table (Exact ℝ) :=
      [("a", .number (1 / 2)), ("b", .number 3), ("c", .infinite false)]
    let tuning : Tuning (Exact ℝ) := { power? := some .undefined, minKeep? := some (.number (-1)) }
    let c := settle methods signals tuning
    let c' := settle ["c", "a", "b", "a"] signals tuning
    (∀ s t p : ℝ, 0 ≤ s -> s ≤ t -> t ≤ 1 -> 1 / 100 ≤ p -> s ^ p ≤ t ^ p) ∧
      c.share "a" ≤ c.share "b" ∧ c.multiplier "c" ≤ c.multiplier "a" ∧
      c'.shares = c.shares ∧ c'.multipliers = c.multipliers := by
  intro methods signals tuning c c'
  have hpow (s t p : ℝ) (hs : 0 ≤ s) (hst : s ≤ t) (ht : t ≤ 1) (hp : 1 / 100 ≤ p) :
      s ^ p ≤ t ^ p := Real.rpow_le_rpow hs hst (by linarith)
  have ha : level signals "a" = 1 / 2 := by
    rw [level_of_number rfl]
    norm_num
  have hb : level signals "b" = 1 := by
    rw [level_of_number rfl]
    norm_num
  have hc : level signals "c" = 0 := by
    show (zero : Exact ℝ).value = 0
    rw [zero_eq]
    rfl
  have hsignal {name : String} {s : Exact ℝ} (hname : name ∈ methods)
      (hs : c.signals.get? name = some s) : s = number (level signals name) := by
    rw [get?_signals_settle hname, signalOf_eq_level] at hs
    exact (Option.some.inj hs).symm
  rcases settle_keeps_ranking hpow methods signals tuning with ⟨hranks, hnames⟩
  rcases hranks "a" (by decide) "b" (by decide) with ⟨s, t, hs, ht, hab, _⟩
  rcases hranks "c" (by decide) "a" (by decide) with ⟨u, v, hu, hv, hca, _⟩
  rw [hsignal (by decide) hs, hsignal (by decide) ht, number_le_number, ha, hb] at hab
  rw [hsignal (by decide) hu, hsignal (by decide) hv, number_le_number, hc, ha] at hca
  have hothers (name : String) : name ∈ ["c", "a", "b", "a"] ↔ name ∈ methods := by
    simp only [methods, List.mem_cons, List.not_mem_nil]
    grind
  rcases hnames ["c", "a", "b", "a"] hothers with ⟨_, hshares, hmultipliers⟩
  exact ⟨hpow, (hab (by norm_num)).1, (hca (by norm_num)).2, hshares, hmultipliers⟩

end Competition
end Reckoner
