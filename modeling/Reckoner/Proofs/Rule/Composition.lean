import Reckoner.Proofs.Rule.Reports

/-!
# Rule sets one after another

Evaluating the rules of two rule sets in a row is evaluating the first rule set, and
then the second one from the scores of the first.  From one rule to the next nothing
is handed on but scores: reports depend on no outcome, and what they add to one comes
after what it holds already.
-/

namespace Reckoner

namespace RuleSet

theorem reports_append (limits : Limits) (facts : Json) (rules later : List Rule) :
    reports limits facts (rules ++ later) =
      (reports limits facts rules).bind fun xs =>
        (reports limits facts later).map fun ys => xs ++ ys := by
  induction rules with
  | nil =>
      show reports limits facts later = (reports limits facts later).map fun ys => ys
      cases reports limits facts later with
      | error e => rfl
      | ok ys => rfl
  | cons r rest ih =>
      have hcons (xs : List Rule) : reports limits facts (r :: xs) =
          (do
            let report? ← r.report limits facts
            let others ← reports limits facts xs
            return (report?.map fun report => (r, report)).toList ++ others) := rfl
      rw [List.cons_append, hcons, hcons, ih]
      cases r.report limits facts with
      | error e => rfl
      | ok report? =>
          cases reports limits facts rest with
          | error e => rfl
          | ok xs =>
              cases reports limits facts later with
              | error e => rfl
              | ok ys => exact congrArg Except.ok (List.append_assoc _ xs ys).symm

end RuleSet

namespace Outcome

/-- The outcome of one run after another, which started from the scores of the first. -/
def followedBy (first second : Outcome) : Outcome where
  scores := second.scores
  emits := first.emits ++ second.emits
  failures := first.failures ++ second.failures
  trace := first.trace ++ second.trace

theorem enter_followedBy (o p : Outcome) (r : Rule) (report : Rule.Report) :
    (o.followedBy p).enter r report = o.followedBy (p.enter r report) := by
  simp only [enter, followedBy, List.append_assoc]

theorem enterAll_followedBy (o p : Outcome) (entries : List (Rule × Rule.Report)) :
    (o.followedBy p).enterAll entries = o.followedBy (p.enterAll entries) := by
  induction entries generalizing p with
  | nil => rfl
  | cons entry rest ih =>
      show ((o.followedBy p).enter entry.1 entry.2).enterAll rest = _
      rw [enter_followedBy, ih]
      rfl

theorem followedBy_scores (o : Outcome) : o.followedBy { scores := o.scores } = o := by
  simp only [followedBy, List.append_nil]

end Outcome

namespace RuleSet

theorem evaluate_append (s t : RuleSet) (limits : Limits) (facts : Json)
    (initial : Table Float) :
    { s with rules := s.rules ++ t.rules }.evaluate limits facts initial =
      (s.evaluate limits facts initial).bind fun first =>
        (t.evaluate limits facts first.scores).map fun second => first.followedBy second := by
  unfold evaluate
  simp only [evaluateFrom_eq_reports, reports_append]
  cases reports limits facts s.rules with
  | error e => rfl
  | ok xs =>
      cases reports limits facts t.rules with
      | error e => rfl
      | ok ys =>
          have hfirst (first : Outcome) :
              first.enterAll ys =
                first.followedBy (Outcome.enterAll { scores := first.scores } ys) := by
            rw [← Outcome.enterAll_followedBy, Outcome.followedBy_scores]
          show Except.ok (Outcome.enterAll { scores := initial } (xs ++ ys)) = _
          rw [Outcome.enterAll_append, hfirst]
          rfl

end RuleSet
end Reckoner
