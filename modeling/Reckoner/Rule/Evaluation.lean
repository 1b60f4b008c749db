import Reckoner.Rule.Basic
import Reckoner.Rule.Outcome
import Reckoner.Template.Render

/-!
# Evaluating rule sets

Every rule is first evaluated for itself: its report depends on the facts and the
limits, and on no score.  The reports are then entered into the outcome one after
another, in the order of the rules.  The first error ends everything.
-/

namespace Reckoner

namespace Rule

structure Report where
  assertionFailed : Bool
  contribution : Table Float
  emission? : Option Json

/-- Whether a rule is open: a rule without a gate always is. -/
def opens (r : Rule) (limits : Limits) (facts : Json) : Except EvalError Bool :=
  match r.gate? with
  | some e => (e.eval limits.expr facts).map Fact.truthy
  | none => .ok true

/-- Whether the assertion of a rule fails: a missing one does not. -/
def failsAssertion (r : Rule) (limits : Limits) (facts : Json) : Except EvalError Bool :=
  match r.assertion? with
  | some e => (e.eval limits.expr facts).map fun x => !x.truthy
  | none => .ok false

/-- The numbers that scores come to, without those that are not finite. -/
def contributions (limits : Limits) (facts : Json) :
    List (String × Expr) -> Except EvalError (Table Float)
  | [] => .ok []
  | (name, e) :: rest => do
      let delta := (← e.eval limits.expr facts).number
      let others ← contributions limits facts rest
      return if delta.isFinite then (name, delta) :: others else others

def emission (r : Rule) (limits : Limits) (facts : Json) : Except EvalError (Option Json) :=
  match r.emission? with
  | some t => (t.render limits facts).map some
  | none => .ok none

def report (r : Rule) (limits : Limits) (facts : Json) : Except EvalError (Option Report) := do
  if ← r.opens limits facts then
    let assertionFailed ← r.failsAssertion limits facts
    let contribution ← contributions limits facts (r.scores?.getD [])
    let emission? ← r.emission limits facts
    return some { assertionFailed, contribution, emission? }
  else
    return none

end Rule

namespace Outcome

/-- Adds contributions to scores. A score that did not exist before starts at zero. -/
def addScores (scores contribution : Table Float) : Table Float :=
  contribution.foldl
    (fun scores entry => scores.insert entry.1 ((scores.get? entry.1).getD 0.0 + entry.2))
    scores

/-- The trace entry of a rule, if it scored or emitted something. -/
def matchOf? (r : Rule) (report : Rule.Report) : Option Match :=
  if report.contribution.isEmpty && report.emission?.isNone then
    none
  else
    some
      { ruleId := r.id
        explanation? := r.explanation?
        tags := r.tags
        scores? := if report.contribution.isEmpty then none else some report.contribution
        emission? := report.emission? }

def enter (o : Outcome) (r : Rule) (report : Rule.Report) : Outcome :=
  { scores := addScores o.scores report.contribution
    emits := o.emits ++ report.emission?.toList
    failures :=
      o.failures ++
        if report.assertionFailed then
          [{ ruleId := r.id, explanation? := r.explanation? }]
        else
          []
    trace := o.trace ++ (matchOf? r report).toList }

def after (o : Outcome) (r : Rule) (limits : Limits) (facts : Json) :
    Except EvalError Outcome := do
  match ← r.report limits facts with
  | some report => return o.enter r report
  | none => return o

end Outcome

namespace RuleSet

/-- The outcome of rules, on top of the outcome of those before them. -/
def evaluateFrom (limits : Limits) (facts : Json) (o : Outcome) (rules : List Rule) :
    Except EvalError Outcome :=
  rules.foldlM (fun o r => o.after r limits facts) o

def evaluate (s : RuleSet) (limits : Limits) (facts : Json) (initial : Table Float) :
    Except EvalError Outcome :=
  evaluateFrom limits facts { scores := initial } s.rules

end RuleSet
end Reckoner
