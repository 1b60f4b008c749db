import Reckoner.Json.Record

/-!
# Outcomes

What the evaluation of a rule set leaves behind: the scores, the emissions, the
assertions that failed, and a trace with an entry for every rule that scored or
emitted something.
-/

namespace Reckoner

namespace Outcome

structure Failure where
  ruleId : String
  explanation? : Option String := none
  deriving Inhabited

structure Match where
  ruleId : String
  explanation? : Option String := none
  tags : List String := []
  scores? : Option (Table Float) := none
  emission? : Option Json := none
  deriving Inhabited

def Failure.record : Json.Record Failure where
  name := "FailedAssertion"
  blank := { ruleId := "" }
  fields := [
    .mandatory "ruleId" Json.Decoder.string .str Failure.ruleId fun ruleId f => { f with ruleId },
    .optional "explain" Json.Decoder.string .str
      Failure.explanation? fun explanation? f => { f with explanation? }]

def Match.record : Json.Record Match where
  name := "RuleMatch"
  blank := { ruleId := "" }
  fields := [
    .mandatory "ruleId" Json.Decoder.string .str Match.ruleId fun ruleId m => { m with ruleId },
    .optional "explain" Json.Decoder.string .str
      Match.explanation? fun explanation? m => { m with explanation? },
    .listing "tags" Json.Decoder.string .str Match.tags fun tags m => { m with tags },
    .optional "scores" Json.Decoder.floats Json.ofFloats
      Match.scores? fun scores? m => { m with scores? },
    .optional "emit" Json.Decoder.json id Match.emission? fun emission? m => { m with emission? }]

end Outcome

structure Outcome where
  scores : Table Float := []
  emits : List Json := []
  failures : List Outcome.Failure := []
  trace : List Outcome.Match := []
  deriving Inhabited

namespace Outcome

/-- The score under a name, which is zero if there is none. -/
def score (o : Outcome) (name : String) : Float :=
  (o.scores.get? name).getD 0.0

def passed (o : Outcome) : Bool :=
  o.failures.isEmpty

def record : Json.Record Outcome where
  name := "EvaluationResult"
  blank := {}
  fields := [
    .mandatory "scores" Json.Decoder.floats Json.ofFloats
      Outcome.scores fun scores o => { o with scores },
    .mandatory "emits" (Json.Decoder.list Json.Decoder.json) .arr
      Outcome.emits fun emits o => { o with emits },
    .mandatory "assertionsFailed" (Json.Decoder.list Failure.record.decoder)
      (fun failures => .arr (failures.map Failure.record.encode))
      Outcome.failures fun failures o => { o with failures },
    .mandatory "matches" (Json.Decoder.list Match.record.decoder)
      (fun trace => .arr (trace.map Match.record.encode))
      Outcome.trace fun trace o => { o with trace }]

def toJson (o : Outcome) : Json :=
  record.encode o

end Outcome
end Reckoner
