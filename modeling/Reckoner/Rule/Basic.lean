import Reckoner.Json.Record
import Reckoner.Template.Basic

/-!
# Rules and rule sets

A rule has a gate, an assertion, scores and an emission, each of which may be
missing.  A rule set is an ordered list of rules.
-/

namespace Reckoner

structure Rule where
  id : String
  gate? : Option Expr := none
  scores? : Option (Table Expr) := none
  emission? : Option Template := none
  assertion? : Option Expr := none
  explanation? : Option String := none
  tags : List String := []
  deriving Inhabited

namespace Rule

/-!
# Building rules step by step
-/

def named (id : String) : Rule :=
  { id }

def gatedBy (r : Rule) (e : Expr) : Rule :=
  { r with gate? := some e }

def scoring (r : Rule) (name : String) (e : Expr) : Rule :=
  { r with scores? := some ((r.scores?.getD []).insert name e) }

def emitting (r : Rule) (t : Template) : Rule :=
  { r with emission? := some t }

def asserting (r : Rule) (e : Expr) : Rule :=
  { r with assertion? := some e }

def explained (r : Rule) (text : String) : Rule :=
  { r with explanation? := some text }

def tagged (r : Rule) (tag : String) : Rule :=
  { r with tags := r.tags ++ [tag] }

/-!
# Rules as records
-/

def record : Json.Record Rule where
  name := "Rule"
  blank := { id := "" }
  fields := [
    .mandatory "id" Json.Decoder.string .str Rule.id fun id r => { r with id },
    .optional "when" Expr.decoder Expr.toJson Rule.gate? fun gate? r => { r with gate? },
    .optional "score" (Json.Decoder.table Expr.decoder)
      (fun scores => .obj (scores.mapValues Expr.toJson))
      Rule.scores? fun scores? r => { r with scores? },
    .optional "emit" Template.decoder Template.toJson
      Rule.emission? fun emission? r => { r with emission? },
    .optional "assert" Expr.decoder Expr.toJson
      Rule.assertion? fun assertion? r => { r with assertion? },
    .optional "explain" Json.Decoder.string .str
      Rule.explanation? fun explanation? r => { r with explanation? },
    .listing "tags" Json.Decoder.string .str Rule.tags fun tags r => { r with tags }]

end Rule

structure RuleSet where
  id : String
  version : String
  description? : Option String := none
  rules : List Rule := []
  deriving Inhabited

namespace RuleSet

def record : Json.Record RuleSet where
  name := "RuleSet"
  blank := { id := "", version := "" }
  fields := [
    .mandatory "id" Json.Decoder.string .str RuleSet.id fun id s => { s with id },
    .mandatory "version" Json.Decoder.string .str
      RuleSet.version fun version s => { s with version },
    .optional "description" Json.Decoder.string .str
      RuleSet.description? fun description? s => { s with description? },
    .defaulted "rules" (Json.Decoder.list Rule.record.decoder)
      (fun rules => .arr (rules.map Rule.record.encode))
      RuleSet.rules fun rules s => { s with rules }]

def toJson (s : RuleSet) : Json :=
  record.encode s

def ofJson (value : Json) : Except EvalError RuleSet :=
  (Json.Decoder.fromValue record.decoder value).mapError .invalidRuleSet

def ofText (text : String) : Except EvalError RuleSet :=
  (Json.Decoder.fromText record.decoder text).mapError .invalidRuleSet

end RuleSet
end Reckoner
