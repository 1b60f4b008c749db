import Reckoner.Rule.Evaluation

/-!
# The reports of a run

A run over rules collects the reports of the rules that are open, and enters them
into the outcome one after another.  Collecting looks at no outcome.  So whether a
run succeeds, and what it adds to an outcome, is settled by the reports alone.
-/

namespace Reckoner

namespace RuleSet

def reports (limits : Limits) (facts : Json) :
    List Rule -> Except EvalError (List (Rule × Rule.Report))
  | [] => .ok []
  | r :: rest => do
      let report? ← r.report limits facts
      let later ← reports limits facts rest
      return (report?.map fun report => (r, report)).toList ++ later

end RuleSet

namespace Rule

def reported? (limits : Limits) (facts : Json) (r : Rule) : Option (Rule × Report) :=
  match r.report limits facts with
  | .ok (some report) => some (r, report)
  | _ => none

theorem reported?_of_report {limits : Limits} {facts : Json} {r : Rule}
    {report? : Option Report} (hreport : r.report limits facts = .ok report?) :
    r.reported? limits facts = report?.map fun report => (r, report) := by
  unfold reported?
  rw [hreport]
  cases report? with
  | none => rfl
  | some report => rfl

/-- Whether a gate or an assertion is there, and has a value that counts as false. -/
def denies (limits : Limits) (facts : Json) (part? : Option Expr) : Bool :=
  match part? with
  | none => false
  | some e =>
      match e.eval limits.expr facts with
      | .ok x => !x.truthy
      | .error _ => false

theorem denies_of_eval {limits : Limits} {facts : Json} {e : Expr} {x : Fact}
    (heval : e.eval limits.expr facts = .ok x) : denies limits facts (some e) = !x.truthy := by
  unfold denies
  dsimp only
  rw [heval]

theorem exists_of_denies {limits : Limits} {facts : Json} {part? : Option Expr}
    (hdenies : denies limits facts part? = true) :
    ∃ e x, part? = some e ∧ e.eval limits.expr facts = .ok x ∧ x.truthy = false := by
  cases part? with
  | none => cases hdenies
  | some e =>
      cases heval : e.eval limits.expr facts with
      | error cause =>
          unfold denies at hdenies
          simp only [heval] at hdenies
          cases hdenies
      | ok x =>
          rw [denies_of_eval heval, Bool.not_eq_true'] at hdenies
          exact ⟨e, x, rfl, heval, hdenies⟩

/-!
The report of a rule says all that its evaluation found.
-/

theorem report_cases {r : Rule} {limits : Limits} {facts : Json} {report? : Option Report}
    (hreport : r.report limits facts = .ok report?) :
    (r.opens limits facts = .ok false ∧ report? = none) ∨
      ∃ report,
        r.opens limits facts = .ok true ∧
        r.failsAssertion limits facts = .ok report.assertionFailed ∧
        contributions limits facts (r.scores?.getD []) = .ok report.contribution ∧
        r.emission limits facts = .ok report.emission? ∧
        report? = some report := by
  unfold report at hreport
  cases hopens : r.opens limits facts with
  | error e =>
      rw [hopens] at hreport
      cases hreport
  | ok isOpen =>
      rw [hopens] at hreport
      cases isOpen with
      | false =>
          cases hreport
          exact Or.inl ⟨rfl, rfl⟩
      | true =>
          cases hfails : r.failsAssertion limits facts with
          | error e =>
              rw [hfails] at hreport
              cases hreport
          | ok assertionFailed =>
              rw [hfails] at hreport
              cases hscores : contributions limits facts (r.scores?.getD []) with
              | error e =>
                  rw [hscores] at hreport
                  cases hreport
              | ok contribution =>
                  rw [hscores] at hreport
                  cases hemits : r.emission limits facts with
                  | error e =>
                      rw [hemits] at hreport
                      cases hreport
                  | ok emission? =>
                      rw [hemits] at hreport
                      cases hreport
                      exact Or.inr ⟨_, rfl, rfl, rfl, rfl, rfl⟩

theorem report_of_closed {r : Rule} {limits : Limits} {facts : Json}
    (hclosed : r.opens limits facts = .ok false) : r.report limits facts = .ok none := by
  unfold report
  rw [hclosed]
  rfl

theorem report_of_open {r : Rule} {limits : Limits} {facts : Json} {report : Report}
    (hopen : r.opens limits facts = .ok true)
    (hfails : r.failsAssertion limits facts = .ok report.assertionFailed)
    (hscores : contributions limits facts (r.scores?.getD []) = .ok report.contribution)
    (hemission : r.emission limits facts = .ok report.emission?) :
    r.report limits facts = .ok (some report) := by
  unfold Rule.report
  rw [hopen, hfails, hscores, hemission]
  rfl

end Rule

namespace Outcome

def enterAll (o : Outcome) (reports : List (Rule × Rule.Report)) : Outcome :=
  reports.foldl (fun o entry => o.enter entry.1 entry.2) o

theorem enterAll_append (o : Outcome) (xs ys : List (Rule × Rule.Report)) :
    o.enterAll (xs ++ ys) = (o.enterAll xs).enterAll ys := by
  unfold enterAll
  rw [List.foldl_append]

end Outcome

namespace RuleSet

/-!
# Collecting the reports

All rules must have a report, the closed ones an empty one.
-/

theorem reports_eq_ok {limits : Limits} {facts : Json} {rules : List Rule}
    {entries : List (Rule × Rule.Report)}
    (hreports : reports limits facts rules = .ok entries) :
    (∀ r ∈ rules, ∃ report?, r.report limits facts = .ok report?) ∧
      entries = rules.filterMap (Rule.reported? limits facts) := by
  induction rules generalizing entries with
  | nil =>
      cases hreports
      exact ⟨fun r hr => absurd hr List.not_mem_nil, rfl⟩
  | cons r rest ih =>
      unfold reports at hreports
      cases hr : r.report limits facts with
      | error e =>
          rw [hr] at hreports
          cases hreports
      | ok report? =>
          rw [hr] at hreports
          cases hlater : reports limits facts rest with
          | error e =>
              rw [hlater] at hreports
              cases hreports
          | ok later =>
              rw [hlater] at hreports
              cases hreports
              obtain ⟨hrest, hentries⟩ := ih hlater
              constructor
              · intro other hother
                rcases List.mem_cons.mp hother with heq | hmem
                · exact ⟨report?, heq ▸ hr⟩
                · exact hrest other hmem
              · rw [hentries, List.filterMap_cons, Rule.reported?_of_report hr]
                cases report? with
                | none => rfl
                | some report => rfl

theorem reports_of_forall {limits : Limits} {facts : Json} {rules : List Rule}
    (hall : ∀ r ∈ rules, ∃ report?, r.report limits facts = .ok report?) :
    reports limits facts rules = .ok (rules.filterMap (Rule.reported? limits facts)) := by
  induction rules with
  | nil => rfl
  | cons r rest ih =>
      obtain ⟨report?, hreport⟩ := hall r List.mem_cons_self
      have hrest := ih fun other hother => hall other (List.mem_cons_of_mem r hother)
      unfold reports
      rw [hreport, hrest, List.filterMap_cons, Rule.reported?_of_report hreport]
      cases report? with
      | none => rfl
      | some report => rfl

/-!
# Entering the reports
-/

theorem evaluateFrom_eq_reports (limits : Limits) (facts : Json) (o : Outcome)
    (rules : List Rule) :
    evaluateFrom limits facts o rules = (reports limits facts rules).map o.enterAll := by
  induction rules generalizing o with
  | nil => rfl
  | cons r rest ih =>
      unfold evaluateFrom reports
      rw [List.foldlM_cons]
      unfold Outcome.after
      cases hr : r.report limits facts with
      | error e => rfl
      | ok report? =>
          have hnext (next : Outcome)
              (hnext : next =
                o.enterAll (report?.map fun report => (r, report)).toList) :
              evaluateFrom limits facts next rest =
                (do
                  let later ← reports limits facts rest
                  return (report?.map fun report => (r, report)).toList ++ later).map
                  o.enterAll := by
            rw [ih, hnext]
            cases reports limits facts rest with
            | error e => rfl
            | ok later => exact congrArg Except.ok (Outcome.enterAll_append o _ later).symm
          cases report? with
          | none => exact hnext o rfl
          | some report => exact hnext (o.enter r report) rfl

theorem evaluate_eq_ok {s : RuleSet} {limits : Limits} {facts : Json}
    {initial : Table Float} {o : Outcome}
    (hrun : s.evaluate limits facts initial = .ok o) :
    (∀ r ∈ s.rules, ∃ report?, r.report limits facts = .ok report?) ∧
      o = Outcome.enterAll { scores := initial }
        (s.rules.filterMap (Rule.reported? limits facts)) := by
  unfold evaluate at hrun
  rw [evaluateFrom_eq_reports] at hrun
  cases hreports : reports limits facts s.rules with
  | error e =>
      rw [hreports] at hrun
      cases hrun
  | ok entries =>
      rw [hreports] at hrun
      cases hrun
      obtain ⟨hall, hentries⟩ := reports_eq_ok hreports
      exact ⟨hall, congrArg _ hentries⟩

end RuleSet

namespace Outcome

/-!
# What entered reports leave behind
-/

/-- The failure that the report of a rule speaks of, if its assertion failed. -/
def failureOf? (r : Rule) (report : Rule.Report) : Option Failure :=
  if report.assertionFailed then some { ruleId := r.id, explanation? := r.explanation? } else none

theorem scores_enterAll (o : Outcome) (entries : List (Rule × Rule.Report)) :
    (o.enterAll entries).scores =
      entries.foldl (fun scores entry => addScores scores entry.2.contribution) o.scores := by
  induction entries generalizing o with
  | nil => rfl
  | cons entry rest ih => exact ih (o.enter entry.1 entry.2)

/-- A list of an outcome to which every report adds one member at most. -/
theorem listed_enterAll {α : Type} {list : Outcome -> List α}
    {added? : Rule × Rule.Report -> Option α}
    (hadded : ∀ o entry, list (o.enter entry.1 entry.2) = list o ++ (added? entry).toList)
    (o : Outcome) (entries : List (Rule × Rule.Report)) :
    list (o.enterAll entries) = list o ++ entries.filterMap added? := by
  induction entries generalizing o with
  | nil => exact (List.append_nil _).symm
  | cons entry rest ih =>
      show list ((o.enter entry.1 entry.2).enterAll rest) = _
      rw [ih, hadded, List.filterMap_cons, List.append_assoc]
      cases added? entry with
      | none => rfl
      | some x => rfl

theorem trace_enterAll (o : Outcome) (entries : List (Rule × Rule.Report)) :
    (o.enterAll entries).trace =
      o.trace ++ entries.filterMap fun entry => matchOf? entry.1 entry.2 :=
  listed_enterAll (fun _ _ => rfl) o entries

theorem emits_enterAll (o : Outcome) (entries : List (Rule × Rule.Report)) :
    (o.enterAll entries).emits =
      o.emits ++ entries.filterMap fun entry => entry.2.emission? :=
  listed_enterAll (fun _ _ => rfl) o entries

theorem failures_enterAll (o : Outcome) (entries : List (Rule × Rule.Report)) :
    (o.enterAll entries).failures =
      o.failures ++ entries.filterMap fun entry => failureOf? entry.1 entry.2 := by
  apply listed_enterAll
  intro o entry
  unfold enter failureOf?
  cases entry.2.assertionFailed with
  | true => rfl
  | false => rfl

end Outcome
end Reckoner
