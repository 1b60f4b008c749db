import Reckoner.Proofs.Decimal.Sum
import Reckoner.Proofs.Rule.Trace

/-!
# Scores out of range

Every number that is added to a score is finite, but nothing looks at the sums.  So a
score is always a number, and it is finite until an addition leaves the range of
doubles; from there on it is an infinity, which is written as null.  The trace lists
what is added, so its scores are finite even then.
-/

namespace Reckoner

namespace Rule

/-!
# What is added
-/

theorem isFinite_of_mem_finiteScores {limits : Limits} {facts : Json} {name : String} {r : Rule}
    {n : Float} (h : n ∈ r.finiteScores limits facts name) : n.isFinite = true := by
  unfold finiteScores at h
  split at h
  · obtain ⟨e, _, hnumber⟩ := List.mem_filterMap.mp h
    obtain ⟨x, _, hfinite, hn⟩ := Expr.finiteNumber?_eq_some.mp hnumber
    exact hn ▸ hfinite
  · cases h

theorem isFinite_of_match? {limits : Limits} {facts : Json} {r : Rule} {report? : Option Report}
    (hreport : r.report limits facts = .ok report?) {m : Outcome.Match}
    (hm : r.match? limits facts = some m) {scores : Table Float}
    (hscores : m.scores? = some scores) :
    ∀ entry ∈ scores, entry.2.isFinite = true := by
  rcases match?_cases hreport with ⟨_, m', hm', htells⟩ | ⟨_, hnone⟩
  · cases hm.symm.trans hm'
    exact (htells.scores scores hscores).2.2
  · cases hm.symm.trans hnone

end Rule

/-!
# How scores are written
-/

theorem Json.ofFloat_eq_null_iff {x : Float} : Json.ofFloat x = .null ↔ x.isFinite = false := by
  unfold ofFloat
  cases x.isFinite with
  | true => exact iff_of_false (fun heq => by cases heq) (fun heq => by cases heq)
  | false => exact iff_of_true rfl rfl

theorem Outcome.field?_scores_toJson (o : Outcome) (name : String) :
    (o.toJson.field? "scores").bind (Json.field? name) = (o.scores.get? name).map Json.ofFloat := by
  show (o.scores.mapValues Json.ofFloat).get? name = _
  exact Table.get?_mapValues o.scores Json.ofFloat name

namespace RuleSet

/-!
# Where scores overflow
-/

def Overflows (s : RuleSet) (limits : Limits) (facts : Json) (initial : Table Float)
    (name : String) : Prop :=
  Number.Overflows ((initial.get? name).getD 0.0)
    (s.rules.flatMap (Rule.finiteScores limits facts name))

section Totals

variable {s : RuleSet} {limits : Limits} {facts : Json} {initial : Table Float} {o : Outcome}

theorem isFinite_initial (hinitial : ∀ entry ∈ initial, entry.2.isFinite = true) (name : String) :
    ((initial.get? name).getD 0.0).isFinite = true := by
  cases hscore : initial.get? name with
  | none => decide
  | some score => exact hinitial (name, score) (Table.mem_of_get? hscore)

theorem get?_scores_of_evaluate (hrun : s.evaluate limits facts initial = .ok o) (name : String) :
    o.scores.get? name =
      Outcome.added (initial.get? name)
        (s.rules.flatMap (Rule.finiteScores limits facts name)) := by
  obtain ⟨hall, ho⟩ := evaluate_eq_ok hrun
  rw [ho, Outcome.get?_scores_enterAll, under_reported hall]

theorem isFinite_total (hinitial : ∀ entry ∈ initial, entry.2.isFinite = true)
    (hrun : s.evaluate limits facts initial = .ok o) {name : String} {total : Float}
    (htotal : o.scores.get? name = some total) :
    total.isNaN = false ∧ (total.isFinite = true ↔ ¬ s.Overflows limits facts initial name) := by
  rw [get?_scores_of_evaluate hrun] at htotal
  rw [Outcome.added_eq_some htotal]
  apply Number.isFinite_foldl_add (isFinite_initial hinitial name)
  intro n hn
  obtain ⟨r, _, hscore⟩ := List.mem_flatMap.mp hn
  exact Rule.isFinite_of_mem_finiteScores hscore

/-- A score that overflows is there, since something was added to it. -/
theorem exists_total_of_overflows (hrun : s.evaluate limits facts initial = .ok o) {name : String}
    (h : s.Overflows limits facts initial name) : ∃ total, o.scores.get? name = some total := by
  rw [get?_scores_of_evaluate hrun]
  unfold Overflows at h
  cases hnumbers : s.rules.flatMap (Rule.finiteScores limits facts name) with
  | nil =>
      rw [hnumbers] at h
      cases h
  | cons n rest => exact ⟨_, rfl⟩

/-- Exactly the scores that overflow are written as null. -/
theorem written_null_iff (hinitial : ∀ entry ∈ initial, entry.2.isFinite = true)
    (hrun : s.evaluate limits facts initial = .ok o) (name : String) :
    (o.toJson.field? "scores").bind (Json.field? name) = some .null ↔
      s.Overflows limits facts initial name := by
  rw [Outcome.field?_scores_toJson, Option.map_eq_some_iff]
  constructor
  · rintro ⟨total, htotal, hnull⟩
    by_contra hrange
    rw [Json.ofFloat_eq_null_iff, (isFinite_total hinitial hrun htotal).2.mpr hrange] at hnull
    cases hnull
  · intro hoverflow
    obtain ⟨total, htotal⟩ := exists_total_of_overflows hrun hoverflow
    refine ⟨total, htotal, Json.ofFloat_eq_null_iff.mpr ?_⟩
    rw [Bool.eq_false_iff, Ne, (isFinite_total hinitial hrun htotal).2]
    exact not_not_intro hoverflow

theorem isFinite_of_mem_trace (hrun : s.evaluate limits facts initial = .ok o) {m : Outcome.Match}
    (hm : m ∈ o.trace) {scores : Table Float} (hscores : m.scores? = some scores) :
    ∀ entry ∈ scores, entry.2.isFinite = true := by
  obtain ⟨hall, ho⟩ := evaluate_eq_ok_iff.mp hrun
  rw [ho] at hm
  obtain ⟨r, hr, hmatch⟩ := List.mem_filterMap.mp hm
  obtain ⟨report?, hreport⟩ := hall r hr
  exact Rule.isFinite_of_match? hreport hmatch hscores

/-- Every score is a number, and it is finite if and only if no addition to it has left the range
of doubles. Those that are not finite are the ones written as null. The scores in the trace are
finite in any case. -/
theorem evaluate_scores_finite_iff (hinitial : ∀ entry ∈ initial, entry.2.isFinite = true)
    (hrun : s.evaluate limits facts initial = .ok o) :
    (∀ name total, o.scores.get? name = some total ->
      total.isNaN = false ∧
        (total.isFinite = true ↔ ¬ s.Overflows limits facts initial name)) ∧
    (∀ name, (o.toJson.field? "scores").bind (Json.field? name) = some .null ↔
      s.Overflows limits facts initial name) ∧
    ∀ m ∈ o.trace, ∀ scores, m.scores? = some scores ->
      ∀ entry ∈ scores, entry.2.isFinite = true := by
  refine ⟨?_, written_null_iff hinitial hrun, ?_⟩
  · intro name total htotal
    exact isFinite_total hinitial hrun htotal
  · intro m hm scores hscores
    exact isFinite_of_mem_trace hrun hm hscores

end Totals

/-- Two scores close to the end of the range: one of them leaves it, and does not come back. -/
theorem evaluate_scores_finite_iff_large :
    let s : RuleSet :=
      { id := "elements"
        version := "1"
        rules := [
          { id := "up", scores? := some [("fire", .number 7e307), ("wood", .number 7e307)] },
          { id := "more", scores? := some [("fire", .number 9e307), ("wood", .number 9e306)] },
          { id := "down", scores? := some [("fire", .number (-1.7e308))] }] }
    let facts : Json := .obj []
    let initial : Table Float := [("fire", 1e308), ("wood", 1e308)]
    (∀ entry ∈ initial, entry.2.isFinite = true) ∧
      ∃ o, s.evaluate {} facts initial = .ok o ∧
        ¬ s.Overflows {} facts initial "wood" ∧
        s.Overflows {} facts initial "fire" ∧
        (o.toJson.field? "scores").bind (Json.field? "fire") = some .null ∧
        ∀ m ∈ o.trace, ∀ scores, m.scores? = some scores ->
          ∀ entry ∈ scores, entry.2.isFinite = true := by
  intro s facts initial
  have hinitial : ∀ entry ∈ initial, entry.2.isFinite = true := by decide +kernel
  have hrun : ∃ o, s.evaluate {} facts initial = .ok o ∧
      (o.scores.get? "wood").map Float.isFinite = some true ∧
      (o.scores.get? "fire").map Float.isFinite = some false :=
    ⟨_, rfl, by decide +kernel, by decide +kernel⟩
  obtain ⟨o, ho, hwood, hfire⟩ := hrun
  obtain ⟨wood, hwood, hfinite⟩ := Option.map_eq_some_iff.mp hwood
  obtain ⟨fire, hfire, hinfinite⟩ := Option.map_eq_some_iff.mp hfire
  obtain ⟨htotals, hnulls, htrace⟩ := evaluate_scores_finite_iff hinitial ho
  have hoverflow : s.Overflows {} facts initial "fire" := by
    by_contra hrange
    exact Bool.false_ne_true (hinfinite.symm.trans ((htotals "fire" fire hfire).2.mpr hrange))
  exact ⟨hinitial, o, ho, (htotals "wood" wood hwood).2.mp hfinite, hoverflow,
    (hnulls "fire").mpr hoverflow, htrace⟩

/-- The largest double added to itself leaves the range, and taking it off again does not lead
back. -/
theorem finite_scores_overflow :
    let s : RuleSet :=
      { id := "s"
        version := "1"
        rules := [
          { id := "up", scores? := some [("k", .number 1.7976931348623157e308)] },
          { id := "down", scores? := some [("k", .call .neg [.number 1.7976931348623157e308])] }] }
    let initial : Table Float := [("k", 1.7976931348623157e308)]
    (∀ entry ∈ initial, entry.2.isFinite = true) ∧
      ∃ o, s.evaluate {} (.obj []) initial = .ok o ∧
        (∃ total, o.scores.get? "k" = some total ∧ total.isFinite = false) ∧
        (o.toJson.field? "scores").bind (Json.field? "k") = some .null := by
  intro s initial
  have hinitial : ∀ entry ∈ initial, entry.2.isFinite = true := by decide +kernel
  have hrun : ∃ o, s.evaluate {} (.obj []) initial = .ok o ∧
      (o.scores.get? "k").map Float.isFinite = some false := ⟨_, rfl, by decide +kernel⟩
  obtain ⟨o, ho, hscore⟩ := hrun
  obtain ⟨total, htotal, hinfinite⟩ := Option.map_eq_some_iff.mp hscore
  refine ⟨hinitial, o, ho, ⟨total, htotal, hinfinite⟩, ?_⟩
  rw [Outcome.field?_scores_toJson, htotal, Option.map_some, Json.ofFloat_eq_null_iff.mpr hinfinite]

end RuleSet
end Reckoner
