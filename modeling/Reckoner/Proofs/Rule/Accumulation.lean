import Mathlib.Data.List.Basic
import Reckoner.Proofs.Rule.Reports

/-!
# How scores accumulate

A score is the number it started from with the finite numbers of all open rules added
from left to right.  Addition of doubles is not associative, so the order of the rules
is part of the law.  The trace alone is enough to add them up again.
-/

namespace Reckoner

namespace Table

def under {α : Type} (name : String) (entries : Table α) : List α :=
  entries.filterMap fun entry => if entry.1 = name then some entry.2 else none

end Table

namespace Expr

def finiteNumber? (limits : Limits) (facts : Json) (e : Expr) : Option Float :=
  match e.eval limits.expr facts with
  | .ok x => if x.number.isFinite then some x.number else none
  | .error _ => none

theorem finiteNumber?_eq_some {limits : Limits} {facts : Json} {e : Expr} {n : Float} :
    e.finiteNumber? limits facts = some n ↔
      ∃ x, e.eval limits.expr facts = .ok x ∧ x.number.isFinite = true ∧ x.number = n := by
  unfold finiteNumber?
  cases heval : e.eval limits.expr facts with
  | error cause => simp
  | ok x => simp

end Expr

namespace Rule

/-- A rule is open if its gate is missing or has a value that counts as true. -/
def isOpen (limits : Limits) (facts : Json) (r : Rule) : Bool :=
  match r.gate? with
  | none => true
  | some gate =>
      match gate.eval limits.expr facts with
      | .ok x => x.truthy
      | .error _ => false

/-- The finite numbers that an open rule scores under a name. -/
def finiteScores (limits : Limits) (facts : Json) (name : String) (r : Rule) : List Float :=
  if r.isOpen limits facts then
    (Table.under name (r.scores?.getD [])).filterMap (Expr.finiteNumber? limits facts)
  else
    []

theorem isOpen_of_opens {limits : Limits} {facts : Json} {r : Rule} {answer : Bool}
    (hopens : r.opens limits facts = .ok answer) :
    r.isOpen limits facts = answer := by
  unfold opens at hopens
  unfold isOpen
  cases hgate : r.gate? with
  | none =>
      rw [hgate] at hopens
      cases hopens
      rfl
  | some gate =>
      rw [hgate] at hopens
      cases heval : gate.eval limits.expr facts with
      | error e =>
          simp only [heval] at hopens
          cases hopens
      | ok x =>
          simp only [heval] at hopens ⊢
          exact Except.ok.inj hopens

theorem contributions_eq_filterMap {limits : Limits} {facts : Json}
    {scores : List (String × Expr)} {contribution : Table Float}
    (hscores : contributions limits facts scores = .ok contribution) :
    contribution = scores.filterMap fun entry =>
      (entry.2.finiteNumber? limits facts).map fun n => (entry.1, n) := by
  induction scores generalizing contribution with
  | nil =>
      cases hscores
      rfl
  | cons entry rest ih =>
      unfold contributions at hscores
      cases heval : entry.2.eval limits.expr facts with
      | error e =>
          rw [heval] at hscores
          cases hscores
      | ok x =>
          rw [heval] at hscores
          cases hrest : contributions limits facts rest with
          | error e =>
              simp only [hrest] at hscores
              cases hscores
          | ok others =>
              simp only [hrest] at hscores
              cases hscores
              have hnumber : entry.2.finiteNumber? limits facts =
                  if x.number.isFinite then some x.number else none := by
                simp only [Expr.finiteNumber?, heval]
              rw [List.filterMap_cons, hnumber, ← ih hrest]
              by_cases hfinite : x.number.isFinite = true <;> simp [hfinite]

theorem under_contributions {limits : Limits} {facts : Json}
    {scores : List (String × Expr)} {contribution : Table Float}
    (hscores : contributions limits facts scores = .ok contribution) (name : String) :
    Table.under name contribution =
      (Table.under name scores).filterMap (Expr.finiteNumber? limits facts) := by
  rw [contributions_eq_filterMap hscores]
  unfold Table.under
  rw [List.filterMap_filterMap, List.filterMap_filterMap]
  apply List.filterMap_congr
  intro entry _
  by_cases hname : entry.1 = name <;>
    cases hnumber : entry.2.finiteNumber? limits facts <;> simp [hname, hnumber]

theorem under_report {limits : Limits} {facts : Json} {r : Rule} {report? : Option Report}
    (hreport : r.report limits facts = .ok report?) (name : String) :
    (report?.toList.flatMap fun report => Table.under name report.contribution) =
      r.finiteScores limits facts name := by
  rcases report_cases hreport with ⟨hclosed, hnone⟩ | ⟨report, hopen, _, hscores, _, hsome⟩
  · rw [hnone, finiteScores, isOpen_of_opens hclosed]
    rfl
  · rw [hsome, finiteScores, isOpen_of_opens hopen]
    simpa using under_contributions hscores name

end Rule

namespace Outcome

/-!
# One name at a time

Adding nothing leaves a score as it is, even a missing one; adding anything makes a
missing score start at zero.
-/

def added (score? : Option Float) (numbers : List Float) : Option Float :=
  if numbers.isEmpty then
    score?
  else
    some (numbers.foldl (· + ·) (score?.getD 0.0))

@[simp] theorem added_nil (score? : Option Float) : added score? [] = score? := rfl

@[simp] theorem added_cons (score? : Option Float) (n : Float) (numbers : List Float) :
    added score? (n :: numbers) = added (some (score?.getD 0.0 + n)) numbers := by
  cases numbers with
  | nil => rfl
  | cons m rest => rfl

theorem added_append (score? : Option Float) (xs ys : List Float) :
    added score? (xs ++ ys) = added (added score? xs) ys := by
  induction xs generalizing score? with
  | nil => rfl
  | cons n rest ih => rw [List.cons_append, added_cons, added_cons, ih]

theorem added_eq_some {score? : Option Float} {numbers : List Float} {total : Float}
    (hadded : added score? numbers = some total) :
    total = numbers.foldl (· + ·) (score?.getD 0.0) := by
  cases numbers with
  | nil =>
      rw [added_nil] at hadded
      rw [hadded]
      rfl
  | cons n rest => exact (Option.some.inj hadded).symm

theorem isSome_added (score? : Option Float) (numbers : List Float) :
    (added score? numbers).isSome = true ↔ score?.isSome = true ∨ ∃ n, n ∈ numbers := by
  cases numbers with
  | nil => simp
  | cons n rest =>
      constructor
      · intro _
        exact Or.inr ⟨n, List.mem_cons_self⟩
      · intro _
        rfl

theorem addScores_cons (scores : Table Float) (entry : String × Float) (rest : Table Float) :
    addScores scores (entry :: rest) =
      addScores (scores.insert entry.1 ((scores.get? entry.1).getD 0.0 + entry.2)) rest :=
  rfl

theorem get?_addScores (scores contribution : Table Float) (name : String) :
    (addScores scores contribution).get? name =
      added (scores.get? name) (Table.under name contribution) := by
  induction contribution generalizing scores with
  | nil => rfl
  | cons entry rest ih =>
      rw [addScores_cons, ih]
      unfold Table.under
      by_cases hname : entry.1 = name
      · rw [hname, Table.get?_insert_self]
        simp [hname]
      · rw [Table.get?_insert_of_ne _ _ hname]
        simp [hname]

theorem get?_scores_enterAll (o : Outcome) (entries : List (Rule × Rule.Report))
    (name : String) :
    (o.enterAll entries).scores.get? name =
      added (o.scores.get? name)
        (entries.flatMap fun entry => Table.under name entry.2.contribution) := by
  induction entries generalizing o with
  | nil => rfl
  | cons entry rest ih =>
      have hstep : (o.enterAll (entry :: rest)).scores =
          ((o.enter entry.1 entry.2).enterAll rest).scores := rfl
      rw [hstep, ih, List.flatMap_cons, added_append]
      exact congrArg (added · _) (get?_addScores o.scores entry.2.contribution name)

/-!
# Adding up from the trace
-/

/-- The scores that a trace adds up to, on top of those before it. -/
def replay (scores : Table Float) (trace : List Match) : Table Float :=
  trace.foldl (fun scores m => addScores scores (m.scores?.getD [])) scores

theorem replay_matchOf? (scores : Table Float) (r : Rule) (report : Rule.Report) :
    replay scores (matchOf? r report).toList = addScores scores report.contribution := by
  unfold matchOf?
  cases hscores : report.contribution with
  | nil =>
      cases hemission : report.emission? with
      | none => rfl
      | some value => rfl
  | cons entry rest => rfl

theorem replay_trace_enterAll (scores : Table Float)
    (entries : List (Rule × Rule.Report)) :
    replay scores (entries.filterMap fun entry => matchOf? entry.1 entry.2) =
      entries.foldl (fun scores entry => addScores scores entry.2.contribution) scores := by
  induction entries generalizing scores with
  | nil => rfl
  | cons entry rest ih =>
      have hcons : (entry :: rest).filterMap (fun entry => matchOf? entry.1 entry.2) =
          (matchOf? entry.1 entry.2).toList ++
            rest.filterMap fun entry => matchOf? entry.1 entry.2 := by
        rw [List.filterMap_cons]
        cases matchOf? entry.1 entry.2 with
        | none => rfl
        | some m => rfl
      have hhead := replay_matchOf? scores entry.1 entry.2
      rw [hcons, replay, List.foldl_append]
      unfold replay at hhead ih
      rw [hhead, ih]
      rfl

end Outcome

namespace RuleSet

/-!
# The law of accumulation
-/

theorem under_reported {limits : Limits} {facts : Json} {rules : List Rule}
    (hall : ∀ r ∈ rules, ∃ report?, r.report limits facts = .ok report?) (name : String) :
    ((rules.filterMap (Rule.reported? limits facts)).flatMap fun entry =>
        Table.under name entry.2.contribution) =
      rules.flatMap (Rule.finiteScores limits facts name) := by
  induction rules with
  | nil => rfl
  | cons r rest ih =>
      obtain ⟨report?, hreport⟩ := hall r List.mem_cons_self
      have hrest := ih fun other hother => hall other (List.mem_cons_of_mem r hother)
      have hhead := Rule.under_report hreport name
      rw [List.filterMap_cons, Rule.reported?_of_report hreport, List.flatMap_cons, ← hhead]
      cases report? with
      | none => exact hrest
      | some report =>
          rw [← hrest]
          simp

theorem mem_finiteScores {limits : Limits} {facts : Json} {rules : List Rule}
    {name : String} :
    (∃ n, n ∈ rules.flatMap (Rule.finiteScores limits facts name)) ↔
      ∃ r ∈ rules, r.isOpen limits facts = true ∧
        ∃ e, (name, e) ∈ r.scores?.getD [] ∧
          ∃ x, e.eval limits.expr facts = .ok x ∧ x.number.isFinite = true := by
  constructor
  · rintro ⟨n, hn⟩
    obtain ⟨r, hr, hscore⟩ := List.mem_flatMap.mp hn
    unfold Rule.finiteScores at hscore
    cases hopen : r.isOpen limits facts with
    | false =>
        rw [hopen] at hscore
        exact absurd hscore List.not_mem_nil
    | true =>
        rw [hopen, if_pos rfl] at hscore
        obtain ⟨e, he, hnumber⟩ := List.mem_filterMap.mp hscore
        obtain ⟨entry, hentry, hunder⟩ := List.mem_filterMap.mp he
        obtain ⟨x, heval, hfinite, _⟩ := Expr.finiteNumber?_eq_some.mp hnumber
        have heq : entry = (name, e) := by
          by_cases hname : entry.1 = name
          · simp only [hname, if_true, Option.some.injEq] at hunder
            exact Prod.ext hname hunder
          · simp [hname] at hunder
        exact ⟨r, hr, hopen, e, heq ▸ hentry, x, heval, hfinite⟩
  · rintro ⟨r, hr, hopen, e, he, x, heval, hfinite⟩
    refine ⟨x.number, List.mem_flatMap.mpr ⟨r, hr, ?_⟩⟩
    unfold Rule.finiteScores
    rw [hopen, if_pos rfl]
    apply List.mem_filterMap.mpr
    refine ⟨e, ?_, Expr.finiteNumber?_eq_some.mpr ⟨x, heval, hfinite, rfl⟩⟩
    exact List.mem_filterMap.mpr ⟨(name, e), he, if_pos rfl⟩

theorem evaluate_scores_accumulate {s : RuleSet} {limits : Limits} {facts : Json}
    {initial : Table Float} {o : Outcome}
    (hrun : s.evaluate limits facts initial = .ok o) :
    (∀ name,
      (o.scores.contains name = true ↔
        initial.contains name = true ∨
          ∃ r ∈ s.rules, r.isOpen limits facts = true ∧
            ∃ e, (name, e) ∈ r.scores?.getD [] ∧
              ∃ x, e.eval limits.expr facts = .ok x ∧ x.number.isFinite = true) ∧
      (∀ total, o.scores.get? name = some total ->
        total = (s.rules.flatMap (Rule.finiteScores limits facts name)).foldl (· + ·)
          ((initial.get? name).getD 0.0))) ∧
    Outcome.replay initial o.trace = o.scores := by
  obtain ⟨hall, ho⟩ := evaluate_eq_ok hrun
  constructor
  · intro name
    have hscore : o.scores.get? name =
        Outcome.added (initial.get? name)
          (s.rules.flatMap (Rule.finiteScores limits facts name)) := by
      rw [ho, Outcome.get?_scores_enterAll, under_reported hall]
    constructor
    · unfold Table.contains
      rw [hscore, Outcome.isSome_added, mem_finiteScores]
    · intro total htotal
      rw [hscore] at htotal
      exact Outcome.added_eq_some htotal
  · rw [ho, Outcome.trace_enterAll, Outcome.scores_enterAll]
    exact Outcome.replay_trace_enterAll initial _

/-- A score shared by four rules: one of them is closed, and one divides by zero. -/
theorem evaluate_scores_accumulate_shared :
    let s : RuleSet :=
      { id := "elements"
        version := "1"
        rules := [
          { id := "base", scores? := some [("fire", .var "heat"), ("wood", .number 1.5)] },
          { id := "closed", gate? := some (.var "rain"), scores? := some [("wood", .number 9)] },
          { id := "broken", scores? := some [("wood", .call .div [.number 1, .number 0])] },
          { id := "bonus", scores? := some [("wood", .var "bonus")] }] }
    let facts : Json := .obj [("bonus", .num (.double 0.25)), ("heat", .str "high")]
    let initial : Table Float := [("wood", 10)]
    ∃ o, s.evaluate {} facts initial = .ok o ∧
      o.scores.get? "wood" = some 11.75 ∧
      11.75 = (s.rules.flatMap (Rule.finiteScores {} facts "wood")).foldl (· + ·)
        ((initial.get? "wood").getD 0.0) ∧
      ¬ o.scores.contains "fire" = true ∧
      Outcome.replay initial o.trace = o.scores := by
  intro s facts initial
  have hrun : ∃ o, s.evaluate {} facts initial = .ok o ∧
      o.scores.get? "wood" = some 11.75 ∧ o.scores.contains "fire" = false :=
    ⟨_, rfl, by decide +kernel, by decide +kernel⟩
  rcases hrun with ⟨o, ho, hwood, hfire⟩
  obtain ⟨hscores, hreplay⟩ := evaluate_scores_accumulate ho
  exact ⟨o, ho, hwood, (hscores "wood").2 11.75 hwood, by simp [hfire], hreplay⟩

end RuleSet
end Reckoner
