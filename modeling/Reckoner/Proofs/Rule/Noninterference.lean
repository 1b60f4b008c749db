import Mathlib.Data.List.Forall2
import Reckoner.Proofs.Rule.Reports

/-!
# What has no influence

A closed rule has no influence on an outcome, whatever it says behind its gate and
however deep this is nested.  An assertion has influence on nothing but the failures,
and the scores to start from have influence on nothing but the scores.
-/

namespace Reckoner

/-!
# Closed rules
-/

namespace Rule

def isClosed (limits : Limits) (facts : Json) (r : Rule) : Bool :=
  denies limits facts r.gate?

/-- A rule may stand for itself, and if it is closed, any rule with the same gate may stand
for it. -/
def MayBecome (limits : Limits) (facts : Json) (r other : Rule) : Prop :=
  other = r ∨ r.isClosed limits facts = true ∧ other.gate? = r.gate?

theorem report_of_isClosed {limits : Limits} {facts : Json} {r : Rule}
    (hclosed : r.isClosed limits facts = true) : r.report limits facts = .ok none := by
  rcases exists_of_denies hclosed with ⟨gate, x, hgate, heval, hfalse⟩
  apply report_of_closed
  unfold opens
  rw [hgate]
  dsimp only
  rw [heval, ← hfalse]
  rfl

theorem isClosed_of_gate {limits : Limits} {facts : Json} {r other : Rule}
    (hgate : other.gate? = r.gate?) : other.isClosed limits facts = r.isClosed limits facts := by
  unfold isClosed
  rw [hgate]

end Rule

namespace RuleSet

variable {limits : Limits} {facts : Json}

theorem reports_cons_of_isClosed {r : Rule} (hclosed : r.isClosed limits facts = true)
    (rest : List Rule) : reports limits facts (r :: rest) = reports limits facts rest := by
  conv_lhs => unfold reports
  rw [Rule.report_of_isClosed hclosed]
  cases reports limits facts rest with
  | error e => rfl
  | ok later => rfl

theorem reports_filter (limits : Limits) (facts : Json) (rules : List Rule) :
    reports limits facts (rules.filter fun r => !r.isClosed limits facts) =
      reports limits facts rules := by
  induction rules with
  | nil => rfl
  | cons r rest ih =>
      cases hclosed : r.isClosed limits facts with
      | true =>
          rw [reports_cons_of_isClosed hclosed, List.filter_cons_of_neg (by simp [hclosed]), ih]
      | false =>
          rw [List.filter_cons_of_pos (by simp [hclosed])]
          unfold reports
          rw [ih]

theorem reports_of_mayBecome {rules others : List Rule}
    (h : List.Forall₂ (Rule.MayBecome limits facts) rules others) :
    reports limits facts others = reports limits facts rules := by
  induction h with
  | nil => rfl
  | @cons r other rest later hhead _ ih =>
      rcases hhead with heq | ⟨hclosed, hgate⟩
      · rw [heq]
        unfold reports
        rw [ih]
      · have hother : other.isClosed limits facts = true :=
          (Rule.isClosed_of_gate hgate).trans hclosed
        rw [reports_cons_of_isClosed hclosed, reports_cons_of_isClosed hother, ih]

end RuleSet

/-!
# Assertions
-/

namespace Rule

def unasserted (r : Rule) : Rule :=
  { r with assertion? := none }

/-- A rule and its report, without what they say of the assertion. -/
def silenced (entry : Rule × Report) : Rule × Report :=
  (entry.1.unasserted, { entry.2 with assertionFailed := false })

variable {limits : Limits} {facts : Json} {r : Rule} {report? : Option Report}

theorem report_unasserted (hreport : r.report limits facts = .ok report?) :
    r.unasserted.report limits facts =
      .ok (report?.map fun report => { report with assertionFailed := false }) := by
  rcases report_cases hreport with
    ⟨hclosed, hnone⟩ | ⟨report, hopen, _, hscores, hemission, hsome⟩
  · rw [hnone]
    exact report_of_closed hclosed
  · rw [hsome]
    exact report_of_open hopen rfl hscores hemission

theorem reported?_unasserted (hreport : r.report limits facts = .ok report?) :
    r.unasserted.reported? limits facts = (r.reported? limits facts).map silenced := by
  rw [reported?_of_report hreport, reported?_of_report (report_unasserted hreport)]
  cases report? with
  | none => rfl
  | some report => rfl

end Rule

namespace Outcome

theorem enterAll_silenced (o : Outcome) (entries : List (Rule × Rule.Report)) :
    { o with failures := [] }.enterAll (entries.map Rule.silenced) =
      { o.enterAll entries with failures := [] } := by
  induction entries generalizing o with
  | nil => rfl
  | cons entry rest ih => exact ih (o.enter entry.1 entry.2)

end Outcome

namespace RuleSet

theorem evaluate_unasserted {s : RuleSet} {limits : Limits} {facts : Json}
    {initial : Table Float} {o : Outcome} (hrun : s.evaluate limits facts initial = .ok o) :
    { s with rules := s.rules.map Rule.unasserted }.evaluate limits facts initial =
      .ok { o with failures := [] } := by
  rcases evaluate_eq_ok hrun with ⟨hall, ho⟩
  have hrest : ∀ r ∈ s.rules.map Rule.unasserted,
      ∃ report?, r.report limits facts = .ok report? := by
    intro r hr
    rcases List.mem_map.mp hr with ⟨asserted, hmem, rfl⟩
    rcases hall asserted hmem with ⟨report?, hreport⟩
    exact ⟨_, Rule.report_unasserted hreport⟩
  have hentries : (s.rules.map Rule.unasserted).filterMap (Rule.reported? limits facts) =
      (s.rules.filterMap (Rule.reported? limits facts)).map Rule.silenced := by
    rw [List.filterMap_map, List.map_filterMap]
    apply List.filterMap_congr
    intro r hr
    rcases hall r hr with ⟨report?, hreport⟩
    exact Rule.reported?_unasserted hreport
  unfold evaluate
  rw [evaluateFrom_eq_reports, reports_of_forall hrest, hentries, ho]
  exact congrArg Except.ok (Outcome.enterAll_silenced { scores := initial } _)

end RuleSet

/-!
# Scores to start from
-/

namespace Outcome

def unscored (o : Outcome) : Outcome :=
  { o with scores := [] }

theorem unscored_enterAll (initial : Table Float) (entries : List (Rule × Rule.Report)) :
    (enterAll { scores := initial } entries).unscored =
      { emits := entries.filterMap fun entry => entry.2.emission?
        failures := entries.filterMap fun entry => failureOf? entry.1 entry.2
        trace := entries.filterMap fun entry => matchOf? entry.1 entry.2 } := by
  unfold unscored
  rw [emits_enterAll, failures_enterAll, trace_enterAll]
  rfl

end Outcome

namespace RuleSet

theorem evaluate_unscored (s : RuleSet) (limits : Limits) (facts : Json)
    (initial other : Table Float) :
    (s.evaluate limits facts other).map Outcome.unscored =
      (s.evaluate limits facts initial).map Outcome.unscored := by
  unfold evaluate
  rw [evaluateFrom_eq_reports, evaluateFrom_eq_reports]
  cases reports limits facts s.rules with
  | error e => rfl
  | ok entries =>
      apply congrArg Except.ok
      rw [Outcome.unscored_enterAll, Outcome.unscored_enterAll]

/-!
# Noninterference
-/

/-- Closed rules may be left out or replaced behind their gates, with the same outcome or the same
error. Without assertions there is the same outcome without failures. And whether there is an
outcome, and all of it but its scores, does not depend on the scores to start from. -/
theorem evaluate_unaffected (s : RuleSet) (limits : Limits) (facts : Json)
    (initial : Table Float) :
    { s with rules := s.rules.filter fun r => !r.isClosed limits facts }.evaluate
        limits facts initial = s.evaluate limits facts initial ∧
      (∀ rules, List.Forall₂ (Rule.MayBecome limits facts) s.rules rules ->
        { s with rules }.evaluate limits facts initial = s.evaluate limits facts initial) ∧
      (∀ o, s.evaluate limits facts initial = .ok o ->
        { s with rules := s.rules.map Rule.unasserted }.evaluate limits facts initial =
          .ok { o with failures := [] }) ∧
      ∀ other, (s.evaluate limits facts other).map Outcome.unscored =
        (s.evaluate limits facts initial).map Outcome.unscored := by
  have hsame (rules : List Rule) (h : reports limits facts rules = reports limits facts s.rules) :
      { s with rules }.evaluate limits facts initial = s.evaluate limits facts initial := by
    unfold evaluate
    rw [evaluateFrom_eq_reports, evaluateFrom_eq_reports, h]
  refine ⟨hsame _ (reports_filter limits facts s.rules), ?_, ?_, ?_⟩
  · exact fun rules hrules => hsame rules (reports_of_mayBecome hrules)
  · exact fun o hrun => evaluate_unasserted hrun
  · exact fun other => evaluate_unscored s limits facts initial other

/-- What a closed rule says may be nested too deep for any other rule. -/
theorem evaluate_unaffected_deep :
    let limits : Limits := ⟨2, 1⟩
    let deep : Expr := .call .not [.call .not [.var "a"]]
    let closed : Rule := { id := "c", gate? := some (.var "missing") }
    let altered : Rule :=
      { closed with
        scores? := some [("x", deep)]
        emission? := some (.list [.expr deep])
        assertion? := some deep }
    let asserting : Rule :=
      { id := "r", scores? := some [("x", .number 1)], assertion? := some (.var "missing") }
    let s : RuleSet := { id := "s", version := "1", rules := [closed, asserting] }
    ∃ o, s.evaluate limits (.obj []) [("x", 1)] = .ok o ∧
      o.failures = [{ ruleId := "r" }] ∧
      { s with rules := [altered, asserting] }.evaluate limits (.obj []) [("x", 1)] = .ok o ∧
      { s with rules := [{ altered with gate? := none }] }.evaluate limits (.obj []) [] =
        .error (.tooDeep 2) ∧
      { s with rules := [closed, { asserting with assertion? := none }] }.evaluate
        limits (.obj []) [("x", 1)] = .ok { o with failures := [] } ∧
      (s.evaluate limits (.obj []) []).map Outcome.unscored = .ok o.unscored := by
  intro limits deep closed altered asserting s
  have hrun : ∃ o, s.evaluate limits (.obj []) [("x", 1)] = .ok o ∧
      o.failures = [{ ruleId := "r" }] := ⟨_, rfl, rfl⟩
  rcases hrun with ⟨o, ho, hfailures⟩
  rcases evaluate_unaffected s limits (.obj []) [("x", 1)] with
    ⟨-, hreplaced, hsilent, hother⟩
  have hrules : List.Forall₂ (Rule.MayBecome limits (.obj [])) s.rules [altered, asserting] :=
    .cons (Or.inr ⟨rfl, rfl⟩) (.cons (Or.inl rfl) .nil)
  refine ⟨o, ho, hfailures, (hreplaced _ hrules).trans ho, rfl, hsilent o ho, ?_⟩
  rw [hother, ho]
  rfl

end RuleSet
end Reckoner
