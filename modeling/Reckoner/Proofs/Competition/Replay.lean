import Reckoner.Proofs.Competition.Doubles

/-!
# Competitions settled again

Before anything is computed, names that are repeated are dropped, and the tuning and the
signals are moved into range.  Doubles that are in range stay as they are, bit for bit, and
so do names without repetitions.  So a competition that is settled again from its own
methods, signals and tuning is the same one, and nothing that was dropped or ignored has
left a trace in it.
-/

namespace Reckoner
namespace Competition

universe u

open Quantity Number Decimal

/-!
# What a competition depends on
-/

theorem settle_congr {α : Type u} [Quantity α] {methods methods' : List String}
    {signals signals' : Table α} {tuning tuning' : Tuning α}
    (hmethods : distinct methods' = distinct methods)
    (hsignals : ∀ name ∈ methods, signalOf signals' name = signalOf signals name)
    (hpower : tuning'.power = tuning.power) (hkeep : tuning'.minKeep = tuning.minKeep) :
    settle methods' signals' tuning' = settle methods signals tuning := by
  have hclamped : (distinct methods).map (signalOf signals') =
      (distinct methods).map (signalOf signals) := by
    apply List.map_congr_left
    intro name hname
    exact hsignals name (mem_distinct.mp hname)
  simp only [settle, hmethods, hclamped, hpower, hkeep]

theorem signalOf_of_get?_eq {α : Type u} [Quantity α] {signals signals' : Table α} {name : String}
    (h : signals'.get? name = signals.get? name) :
    signalOf signals' name = signalOf signals name := by
  unfold signalOf
  rw [h]

/-!
# Names
-/

theorem distinct_of_nodup {names : List String} (h : names.Nodup) : distinct names = names := by
  induction names using List.reverseRecOn with
  | nil => rfl
  | append_singleton names last ih =>
      have hnames := List.nodup_append.mp h
      have hlast : last ∉ names := by
        intro hmem
        exact hnames.2.2 last hmem last List.mem_cons_self rfl
      rw [distinct_concat, ih hnames.1, if_neg hlast]

/-- What is left of a list of names without some of those that occur before. -/
inductive Thinned : List String -> List String -> Prop where
  | all (names : List String) : Thinned names names
  | drop {before after rest : List String} {name : String} :
      name ∈ before -> Thinned (before ++ after) rest ->
      Thinned (before ++ name :: after) rest

theorem distinct_drop {before : List String} {name : String} (h : name ∈ before)
    (after : List String) : distinct (before ++ name :: after) = distinct (before ++ after) := by
  have hseen : name ∈ distinct before := mem_distinct.mpr h
  unfold distinct at hseen ⊢
  rw [List.foldl_append, List.foldl_append, List.foldl_cons, if_pos hseen]

theorem Thinned.distinct_eq {names rest : List String} (h : Thinned names rest) :
    distinct rest = distinct names := by
  induction h with
  | all names => rfl
  | drop hname _ ih => rw [ih, distinct_drop hname]

/-!
# Doubles in range
-/

theorem clampUnit_of_between {x : Float} (h : Between 0 1 x) : clampUnit x = x := by
  have hlow : ¬ x < 0 := by
    rw [lt_iff_exact h.finite rfl, exact_zero]
    exact not_lt_of_ge h.least
  have hhigh : ¬ 1 < x := by
    rw [lt_iff_exact rfl h.finite, exact_one]
    exact not_lt_of_ge h.most
  unfold clampUnit
  simp only [lt_eq_decide, decide_eq_true_eq]
  exact (if_neg hlow).trans (if_neg hhigh)

theorem signalOf_of_between {signals : Table Float} {name : String} {s : Float}
    (hget : signals.get? name = some s) (h : Between 0 1 s) : signalOf signals name = s := by
  unfold signalOf
  rw [hget]
  exact (if_pos h.finite).trans (clampUnit_of_between h)

theorem minKeep_of_between {tuning : Tuning Float} {k : Float} (hkeep : tuning.minKeep? = some k)
    (h : Between 0 1 k) : tuning.minKeep = k := by
  unfold Tuning.minKeep
  rw [hkeep]
  exact (if_pos h.finite).trans (clampUnit_of_between h)

theorem power_of_minPower_le {tuning : Tuning Float} {p : Float} (hpower : tuning.power? = some p)
    (hfinite : p.isFinite = true) (h : 0.01 ≤ p) : tuning.power = p := by
  have hleast : (0.01 : Float).isFinite = true := by decide
  have hlow : ¬ p < 0.01 := by
    rw [lt_iff_exact hfinite hleast]
    exact not_lt_of_ge ((le_iff_exact hleast hfinite).mp h)
  unfold Tuning.power atLeast
  rw [hpower]
  simp only [lt_eq_decide, decide_eq_true_eq]
  exact (if_pos hfinite).trans (if_neg hlow)

theorem isFinite_power (tuning : Tuning Float) : tuning.power.isFinite = true := by
  unfold Tuning.power
  split
  · rename_i p _
    split
    · rename_i hfinite
      unfold atLeast
      split
      · show (0.01 : Float).isFinite = true
        decide
      · exact hfinite
    · decide
  · decide

/-!
# Once more
-/

theorem settle_settled (methods : List String) (signals : Table Float) (tuning : Tuning Float) :
    let c := settle methods signals tuning
    settle c.methods c.signals { power? := some c.power, minKeep? := some c.minKeep } = c := by
  intro c
  apply settle_congr
  · exact distinct_of_nodup (nodup_distinct methods)
  · intro name hname
    exact signalOf_of_between (get?_signals_settle hname) (between_signalOf signals name)
  · exact power_of_minPower_le rfl (isFinite_power tuning) (minPower_le_power tuning)
  · exact minKeep_of_between rfl (between_minKeep tuning)

/-- A competition is the same if it is settled again from what it says of itself, without names that
are repeated, or with other signals of strangers. -/
theorem settle_replays (methods : List String) (signals : Table Float) (tuning : Tuning Float) :
    let c := settle methods signals tuning
    settle c.methods c.signals { power? := some c.power, minKeep? := some c.minKeep } = c ∧
    (∀ rest, Thinned methods rest -> settle rest signals tuning = c) ∧
    ∀ signals', (∀ name ∈ methods, Table.get? signals' name = signals.get? name) ->
      settle methods signals' tuning = c := by
  intro c
  constructor
  · exact settle_settled methods signals tuning
  constructor
  · intro rest hrest
    exact settle_congr hrest.distinct_eq (fun _ _ => rfl) rfl rfl
  · intro signals' hsignals
    apply settle_congr rfl _ rfl rfl
    intro name hname
    exact signalOf_of_get?_eq (hsignals name hname)

/-- Signals and a tuning that are out of range or not finite, a zero with a sign, a repeated method
and a stranger. -/
theorem settle_replays_malformed :
    let methods := ["b", "a", "b", "c"]
    let signals : Table Float := [("a", 0 / 0), ("b", 7), ("c", -0.0), ("z", 1)]
    let signals' : Table Float := [("a", 0 / 0), ("b", 7), ("c", -0.0), ("y", 1 / 0)]
    let tuning : Tuning Float := { power? := some (-3), minKeep? := some (1 / 0) }
    let c := settle methods signals tuning
    c.methods = ["b", "a", "c"] ∧ c.signals = [("a", 0), ("b", 1), ("c", -0.0)] ∧
      c.power = 0.01 ∧ c.minKeep = 0.2 ∧
      settle ["b", "a", "c"] [("a", 0), ("b", 1), ("c", -0.0)]
        { power? := some 0.01, minKeep? := some 0.2 } = c ∧
      settle ["b", "a", "c"] signals tuning = c ∧
      settle methods signals' tuning = c := by
  intro methods signals signals' tuning c
  have hmethods : c.methods = ["b", "a", "c"] := by decide
  have hsignals : c.signals = [("a", 0), ("b", 1), ("c", -0.0)] := by decide +kernel
  have hpower : c.power = 0.01 := by decide +kernel
  have hkeep : c.minKeep = 0.2 := by decide +kernel
  have hthinned : Thinned methods ["b", "a", "c"] :=
    @Thinned.drop ["b", "a"] ["c"] _ "b" (by decide) (.all _)
  have hsame : ∀ name ∈ methods, signals'.get? name = signals.get? name := by decide +kernel
  rcases settle_replays methods signals tuning with ⟨hreplay, hrest, hstrangers⟩
  refine ⟨hmethods, hsignals, hpower, hkeep, ?_, hrest _ hthinned, hstrangers signals' hsame⟩
  rw [← hmethods, ← hsignals, ← hpower, ← hkeep]
  exact hreplay

end Competition
end Reckoner
