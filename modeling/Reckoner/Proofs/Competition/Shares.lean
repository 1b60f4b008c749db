import Reckoner.Competition.Basic
import Reckoner.Proofs.Table
import Reckoner.Proofs.Competition.Exact
import Mathlib.Algebra.BigOperators.Ring.List
import Mathlib.Algebra.Order.BigOperators.Group.List
import Mathlib.Analysis.SpecialFunctions.Pow.Real

/-!
# The laws of a competition

In exact arithmetic the shares of a competition lie between zero and one and sum up
to one, and the multipliers lie between the part that every method keeps and one.
This holds of every list of methods, with all signals and every tuning: methods that
are repeated count once, and what is missing, out of range or not finite gives way
to a number in range.
-/

namespace Reckoner
namespace Competition

universe u

open Quantity Exact

/-!
# Names without repetitions
-/

theorem distinct_concat (names : List String) (name : String) :
    distinct (names ++ [name]) =
      if name ∈ distinct names then distinct names else distinct names ++ [name] := by
  unfold distinct
  rw [List.foldl_append]
  rfl

theorem mem_distinct {names : List String} {name : String} :
    name ∈ distinct names ↔ name ∈ names := by
  induction names using List.reverseRecOn with
  | nil => rfl
  | append_singleton names last ih =>
      rw [distinct_concat, List.mem_append, List.mem_singleton]
      split
      · rename_i hseen
        constructor
        · intro hmem
          exact .inl (ih.mp hmem)
        · rintro (hmem | rfl)
          · exact ih.mpr hmem
          · exact hseen
      · rw [List.mem_append, List.mem_singleton, ih]

/-- The names occur in the order of their first occurrences. -/
theorem pairwise_distinct (names : List String) :
    (distinct names).Pairwise fun a b => names.idxOf a < names.idxOf b := by
  induction names using List.reverseRecOn with
  | nil => exact .nil
  | append_singleton names last ih =>
      have hkept {a : String} (ha : a ∈ distinct names) :
          (names ++ [last]).idxOf a = names.idxOf a :=
        List.idxOf_append_of_mem (mem_distinct.mp ha)
      have hbefore : (distinct names).Pairwise fun a b =>
          (names ++ [last]).idxOf a < (names ++ [last]).idxOf b := by
        apply ih.imp_of_mem
        intro a b ha hb hab
        rw [hkept ha, hkept hb]
        exact hab
      rw [distinct_concat]
      split
      · exact hbefore
      · rename_i hnew
        refine List.pairwise_append.mpr ⟨hbefore, List.pairwise_singleton _ _, ?_⟩
        intro a ha b hb
        have hlast : last ∉ names := fun hmem => hnew (mem_distinct.mpr hmem)
        rw [List.mem_singleton.mp hb, hkept ha, List.idxOf_append_of_notMem hlast,
          List.idxOf_cons_self]
        exact List.idxOf_lt_length_of_mem (mem_distinct.mp ha)

theorem nodup_distinct (names : List String) : (distinct names).Nodup := by
  apply (pairwise_distinct names).imp
  intro a b hlt heq
  rw [heq] at hlt
  exact lt_irrefl _ hlt

/-!
# One entry for every name
-/

section Entries

variable {α : Type u} {names : List String} {values : List α}

def Keyed (table : Table α) (names : List String) : Prop :=
  table.Sorted ∧ table.keys.Perm names

theorem keys_zip (hlength : names.length = values.length) :
    Table.keys (names.zip values) = names :=
  List.map_fst_zip hlength.le

theorem values_zip (hlength : names.length = values.length) :
    Table.values (names.zip values) = values :=
  List.map_snd_zip hlength.ge

theorem perm_ofList_zip (hnames : names.Nodup) (hlength : names.length = values.length) :
    (Table.ofList (names.zip values)).Perm (names.zip values) := by
  apply Table.ofList_perm
  rw [keys_zip hlength]
  exact hnames

theorem keyed_ofList_zip (hnames : names.Nodup) (hlength : names.length = values.length) :
    Keyed (Table.ofList (names.zip values)) names := by
  have hkeys : (Table.ofList (names.zip values)).keys.Perm (Table.keys (names.zip values)) :=
    (perm_ofList_zip hnames hlength).map Prod.fst
  rw [keys_zip hlength] at hkeys
  exact ⟨Table.sorted_ofList _, hkeys⟩

theorem values_ofList_zip (hnames : names.Nodup) (hlength : names.length = values.length) :
    (Table.ofList (names.zip values)).values.Perm values := by
  have hvalues :
      (Table.ofList (names.zip values)).values.Perm (Table.values (names.zip values)) :=
    (perm_ofList_zip hnames hlength).map Prod.snd
  rw [values_zip hlength] at hvalues
  exact hvalues

theorem keys_map_entry (names : List String) (f : String -> α) :
    Table.keys (names.map fun name => (name, f name)) = names := by
  rw [Table.keys, List.map_map]
  exact List.map_id _

theorem get?_ofList_map (hnames : names.Nodup) (f : String -> α) {name : String}
    (hname : name ∈ names) :
    (Table.ofList (names.map fun name => (name, f name))).get? name = some (f name) := by
  have hkeys : (Table.keys (names.map fun name => (name, f name))).Nodup := by
    rw [keys_map_entry]
    exact hnames
  rw [Table.get?_ofList hkeys]
  exact Table.get?_of_mem hkeys (List.mem_map_of_mem hname)

end Entries

section Signals

variable {α : Type u} [Quantity α] {methods : List String} {signals : Table α}
  {tuning : Tuning α}

theorem signals_settle : (settle methods signals tuning).signals =
    Table.ofList ((distinct methods).map fun method => (method, signalOf signals method)) := by
  rw [List.map_prod_left_eq_zip]
  rfl

theorem get?_signals_settle {method : String} (hmethod : method ∈ methods) :
    (settle methods signals tuning).signals.get? method = some (signalOf signals method) := by
  rw [signals_settle]
  exact get?_ofList_map (nodup_distinct methods) _ (mem_distinct.mpr hmethod)

end Signals

/-!
# Parts of a sum
-/

section Parts

variable {K : Type u} [Field K] [LinearOrder K]

/-- The parts of numbers in their sum, or equal parts if the sum is no more than some least one. -/
def parts (least : K) (ws : List K) : List K :=
  if least < ws.sum then
    ws.map fun w => w / ws.sum
  else
    ws.map fun _ => 1 / (ws.length : K)

theorem length_parts (least : K) (ws : List K) : (parts least ws).length = ws.length := by
  unfold parts
  split
  · exact List.length_map _
  · exact List.length_map _

variable [IsStrictOrderedRing K] {least : K} (hleast : 0 < least)

include hleast

theorem parts_between {ws : List K} (hws : ∀ w ∈ ws, 0 ≤ w) :
    ∀ v ∈ parts least ws, 0 ≤ v ∧ v ≤ 1 := by
  intro v hv
  unfold parts at hv
  split at hv
  · rename_i htotal
    have hpositive : 0 < ws.sum := lt_trans hleast htotal
    obtain ⟨w, hw, rfl⟩ := List.mem_map.mp hv
    constructor
    · exact div_nonneg (hws w hw) hpositive.le
    · exact (div_le_one hpositive).mpr (List.single_le_sum hws w hw)
  · obtain ⟨w, hw, rfl⟩ := List.mem_map.mp hv
    have hlength : 1 ≤ (ws.length : K) :=
      Nat.one_le_cast.mpr (List.length_pos_of_mem hw)
    constructor
    · positivity
    · exact (div_le_one (lt_of_lt_of_le zero_lt_one hlength)).mpr hlength

theorem sum_parts {ws : List K} (hsome : ws ≠ []) : (parts least ws).sum = 1 := by
  unfold parts
  split
  · rename_i htotal
    have hpositive : 0 < ws.sum := lt_trans hleast htotal
    calc
      (ws.map fun w => w / ws.sum).sum = (ws.map fun w => w * (ws.sum)⁻¹).sum := by
        simp only [div_eq_mul_inv]
      _ = ws.sum * (ws.sum)⁻¹ := by
        rw [List.sum_map_mul_right, List.map_id']
      _ = 1 := mul_inv_cancel₀ hpositive.ne'
  · have hlength : (ws.length : K) ≠ 0 :=
      Nat.cast_ne_zero.mpr (List.length_pos_iff.mpr hsome).ne'
    rw [List.map_const', List.sum_replicate, nsmul_eq_mul]
    exact mul_one_div_cancel hlength

end Parts

section Laws

variable {K : Type u} [Field K] [LinearOrder K] [Pow K K]

/-!
# The table of the signals and the sum of the multipliers
-/

theorem keyed_signals (methods : List String) (signals : Table (Exact K))
    (tuning : Tuning (Exact K)) :
    Keyed (settle methods signals tuning).signals (settle methods signals tuning).methods :=
  keyed_ofList_zip (nodup_distinct methods) (List.length_map _).symm

theorem sum_multiplierOf (k : K) (vs : List K) :
    sum ((vs.map number).map (multiplierOf (number k))) =
      number (vs.length * k + (1 - k) * vs.sum) := by
  have hnumbers : (vs.map number).map (multiplierOf (number k)) =
      (vs.map fun v => k + (1 - k) * v).map number := by
    rw [List.map_map, List.map_map]
    apply List.map_congr_left
    intro v _
    simp [multiplierOf]
  rw [hnumbers, sum_map_number, List.sum_map_add, List.sum_map_mul_left, List.map_const',
    List.sum_replicate, nsmul_eq_mul, List.map_id']

variable [IsStrictOrderedRing K]

/-!
# What goes into the shares
-/

theorem exists_power (t : Tuning (Exact K)) : ∃ p, t.power = number p ∧ 1 / 100 ≤ p := by
  have hdefault : ∃ p : K, (Tuning.defaultPower : Exact K) = number p ∧ 1 / 100 ≤ p :=
    ⟨((2 : Nat) : K), rfl, by norm_num⟩
  have hleast : (Tuning.minPower : Exact K) = number (1 / 100) := by
    show number (((1 : Nat) : K) / 10 ^ 2) = _
    norm_num
  unfold Tuning.power
  cases t.power? with
  | none => exact hdefault
  | some p =>
      cases p with
      | number x =>
          have hbound := exists_atLeast (1 / 100) x
          rw [← hleast] at hbound
          exact hbound
      | infinite negative => exact hdefault
      | undefined => exact hdefault

theorem within_minKeep (t : Tuning (Exact K)) : Within 0 1 t.minKeep := by
  have hdefault : Within 0 1 (Tuning.defaultMinKeep : Exact K) :=
    ⟨((2 : Nat) : K) / 10 ^ 1, rfl, by norm_num, by norm_num⟩
  unfold Tuning.minKeep
  cases t.minKeep? with
  | none => exact hdefault
  | some k =>
      cases k with
      | number x => exact within_clampUnit x
      | infinite negative => exact hdefault
      | undefined => exact hdefault

theorem within_signalOf (signals : Table (Exact K)) (method : String) :
    Within 0 1 (signalOf signals method) := by
  have hzero : Within 0 1 (zero : Exact K) := ⟨0, zero_eq, le_rfl, zero_le_one⟩
  unfold signalOf
  cases signals.get? method with
  | none => exact hzero
  | some s =>
      cases s with
      | number x => exact within_clampUnit x
      | infinite negative => exact hzero
      | undefined => exact hzero

theorem within_map_signalOf (signals : Table (Exact K)) (methods : List String) :
    ∀ signal ∈ methods.map (signalOf signals), Within 0 1 signal := by
  intro signal hsignal
  obtain ⟨method, _, rfl⟩ := List.mem_map.mp hsignal
  exact within_signalOf signals method

/-!
# Shares and multipliers of numbers
-/

theorem sharesOf_map_number (ws : List K) :
    sharesOf (ws.map number) = (parts (1 / 10 ^ 9) ws).map number := by
  unfold sharesOf parts
  have hleast : lt leastTotal (number ws.sum) = decide (1 / 10 ^ 9 < ws.sum) := by
    show decide (((1 : Nat) : K) / 10 ^ 9 < ws.sum) = _
    rw [Nat.cast_one]
  simp only [sum_map_number, hleast, decide_eq_true_eq, List.length_map, List.map_map]
  split
  · rename_i htotal
    have hpositive : 0 < ws.sum := lt_trans (by positivity) htotal
    rw [List.map_map]
    exact List.map_congr_left fun w _ => div_number hpositive.ne' w
  · -- the number of methods is not zero if there is a method to divide by it
    rw [List.map_map]
    apply List.map_congr_left
    intro w hw
    have hlength : (ws.length : K) ≠ 0 :=
      Nat.cast_ne_zero.mpr (List.length_pos_of_mem hw).ne'
    rw [Function.comp_apply, Function.comp_apply, one_eq]
    exact div_number hlength 1

theorem within_multiplierOf {k v : K} (hk : 0 ≤ k ∧ k ≤ 1) (hv : 0 ≤ v ∧ v ≤ 1) :
    Within k 1 (multiplierOf (number k) (number v)) := by
  have hrest : 0 ≤ 1 - k := by linarith
  refine ⟨k + (1 - k) * v, ?_, ?_, ?_⟩
  · simp [multiplierOf]
  · have hpart := mul_nonneg hrest hv.1
    linarith
  · have hpart := mul_le_of_le_one_right hrest hv.2
    linarith

/-!
# The laws
-/

section Settled

variable (methods : List String) (signals : Table (Exact K)) (tuning : Tuning (Exact K))

theorem within_signals : ∀ signal ∈ (settle methods signals tuning).signals.values,
    Within 0 1 signal := by
  intro signal hsignal
  have hperm : (settle methods signals tuning).signals.values.Perm
      ((distinct methods).map (signalOf signals)) :=
    values_ofList_zip (nodup_distinct methods) (List.length_map _).symm
  exact within_map_signalOf signals _ signal (hperm.subset hsignal)

/-- The shares in the order of the methods. -/
theorem exists_shares
    (hpow : ∀ s p : K, 0 ≤ s -> s ≤ 1 -> 1 / 100 ≤ p -> 0 ≤ s ^ p ∧ s ^ p ≤ 1) :
    ∃ vs : List K, (settle methods signals tuning).shares =
        Table.ofList ((settle methods signals tuning).methods.zip (vs.map number)) ∧
      vs.length = (settle methods signals tuning).methods.length ∧
      (∀ v ∈ vs, 0 ≤ v ∧ v ≤ 1) ∧
      ((settle methods signals tuning).methods ≠ [] -> vs.sum = 1) := by
  obtain ⟨p, hpower, hp⟩ := exists_power tuning
  obtain ⟨ss, hss, hbounds⟩ := exists_numbers (within_map_signalOf signals (distinct methods))
  have hlength : ss.length = (distinct methods).length := by
    rw [← List.length_map (f := number), ← hss, List.length_map]
  have hweights : ((distinct methods).map (signalOf signals)).map (fun s => pow s tuning.power) =
      (ss.map fun s => s ^ p).map number := by
    rw [hss, hpower, List.map_map, List.map_map]
    rfl
  have hnonneg : ∀ w ∈ ss.map fun s => s ^ p, 0 ≤ w := by
    intro w hw
    obtain ⟨s, hs, rfl⟩ := List.mem_map.mp hw
    exact (hpow s p (hbounds s hs).1 (hbounds s hs).2 hp).1
  have hleast : (0 : K) < 1 / 10 ^ 9 := by positivity
  refine ⟨parts (1 / 10 ^ 9) (ss.map fun s => s ^ p), ?_, ?_, parts_between hleast hnonneg, ?_⟩
  · show Table.ofList ((distinct methods).zip (sharesOf (((distinct methods).map
      (signalOf signals)).map fun s => pow s tuning.power))) = _
    rw [hweights, sharesOf_map_number]
    rfl
  · rw [length_parts, List.length_map]
    exact hlength
  · intro hsome
    apply sum_parts hleast
    intro hnone
    rw [List.map_eq_nil_iff.mp hnone] at hlength
    exact hsome (List.length_eq_zero_iff.mp hlength.symm)

end Settled

theorem settle_laws (hpow : ∀ s p : K, 0 ≤ s -> s ≤ 1 -> 1 / 100 ≤ p -> 0 ≤ s ^ p ∧ s ^ p ≤ 1)
    (methods : List String) (signals : Table (Exact K)) (tuning : Tuning (Exact K)) :
    let c := settle methods signals tuning
    (∀ method, method ∈ c.methods ↔ method ∈ methods) ∧
    (c.methods.Pairwise fun a b => methods.idxOf a < methods.idxOf b) ∧
    Keyed c.signals c.methods ∧ Keyed c.shares c.methods ∧ Keyed c.multipliers c.methods ∧
    (∀ signal ∈ c.signals.values, Within 0 1 signal) ∧
    (∀ share ∈ c.shares.values, Within 0 1 share) ∧
    ∃ k, c.minKeep = number k ∧ 0 ≤ k ∧ k ≤ 1 ∧
      (∀ multiplier ∈ c.multipliers.values, Within k 1 multiplier) ∧
      (c.methods ≠ [] ->
        sum c.shares.values = number 1 ∧
        sum c.multipliers.values = number (c.methods.length * k + (1 - k))) := by
  intro c
  obtain ⟨k, hkeep, hk⟩ := within_minKeep tuning
  obtain ⟨vs, hshares, hlength, hvs, hsum⟩ := exists_shares methods signals tuning hpow
  have hnames : c.methods.Nodup := nodup_distinct methods
  have hcount : c.methods.length = (vs.map number).length := by
    rw [List.length_map]
    exact hlength.symm
  have hkeyed : Keyed c.shares c.methods := by
    show Keyed (settle methods signals tuning).shares c.methods
    rw [hshares]
    exact keyed_ofList_zip hnames hcount
  have hvalues : c.shares.values.Perm (vs.map number) := by
    show (settle methods signals tuning).shares.values.Perm (vs.map number)
    rw [hshares]
    exact values_ofList_zip hnames hcount
  have hmultipliers :
      c.multipliers.values.Perm ((vs.map number).map (multiplierOf (number k))) := by
    show (c.shares.mapValues (multiplierOf tuning.minKeep)).values.Perm _
    rw [hkeep, Table.values_mapValues]
    exact hvalues.map _
  refine ⟨fun method => mem_distinct, pairwise_distinct methods,
    keyed_signals methods signals tuning, hkeyed, ⟨hkeyed.1.mapValues _, ?_⟩,
    within_signals methods signals tuning, ?_, k, hkeep, hk.1, hk.2, ?_, ?_⟩
  · show (c.shares.mapValues _).keys.Perm c.methods
    rw [Table.keys_mapValues]
    exact hkeyed.2
  · intro share hshare
    obtain ⟨v, hv, rfl⟩ := List.mem_map.mp (hvalues.subset hshare)
    exact ⟨v, rfl, hvs v hv⟩
  · intro multiplier hmultiplier
    have hmem := hmultipliers.subset hmultiplier
    rw [List.map_map] at hmem
    obtain ⟨v, hv, rfl⟩ := List.mem_map.mp hmem
    exact within_multiplierOf hk (hvs v hv)
  · intro hsome
    have hone : vs.sum = 1 := hsum hsome
    constructor
    · rw [sum_perm hvalues, sum_map_number, hone]
    · rw [sum_perm hmultipliers, sum_multiplierOf, hone, mul_one, hlength]

end Laws

/-- Two methods of which one is repeated and one has no finite signal, with real powers. -/
theorem settle_laws_real :
    let methods := ["a", "b", "a", "c"]
    let signals : Table (Exact ℝ) := [("a", .number 3), ("b", .infinite true)]
    let c := settle methods signals { power? := some .undefined, minKeep? := some (.number 2) }
    (∀ s p : ℝ, 0 ≤ s -> s ≤ 1 -> 1 / 100 ≤ p -> 0 ≤ s ^ p ∧ s ^ p ≤ 1) ∧
      c.methods = ["a", "b", "c"] ∧
      sum c.shares.values = number 1 ∧
      ∃ k, sum c.multipliers.values = number (3 * k + (1 - k)) := by
  intro methods signals c
  have hpow (s p : ℝ) (hs : 0 ≤ s) (hone : s ≤ 1) (hp : 1 / 100 ≤ p) :
      0 ≤ s ^ p ∧ s ^ p ≤ 1 :=
    ⟨Real.rpow_nonneg hs p, Real.rpow_le_one hs hone (by linarith)⟩
  obtain ⟨_, _, _, _, _, _, _, k, _, _, _, _, hsums⟩ := settle_laws hpow methods signals
    { power? := some .undefined, minKeep? := some (.number 2) }
  have hmethods : c.methods = ["a", "b", "c"] := by
    show distinct ["a", "b", "a", "c"] = _
    decide
  have hsome : c.methods ≠ [] := by
    rw [hmethods]
    exact List.cons_ne_nil _ _
  obtain ⟨hshares, hmultipliers⟩ := hsums hsome
  refine ⟨hpow, hmethods, hshares, k, ?_⟩
  change sum c.multipliers.values = number (c.methods.length * k + (1 - k)) at hmultipliers
  rw [hmethods] at hmultipliers
  exact hmultipliers

end Competition
end Reckoner
