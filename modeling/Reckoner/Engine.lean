import Reckoner.Competition.Basic
import Reckoner.Policy.Cache
import Reckoner.Rule.Evaluation
import Reckoner.Settings.Basic

/-!
# Engines

An engine evaluates under its settings and keeps the rule sets that it compiles.
Documents are found again by their content, so a document is compiled once as long
as its policy is kept.
-/

namespace Reckoner

/-- A compiled rule set, with the number of the compilation that made it. -/
structure Policy where
  serial : Nat
  rules : RuleSet

/-- An engine with its settings, its policies, and the number of compilations it has begun. -/
structure Engine where
  settings : Settings := {}
  policies : PolicyCache Policy := {}
  compilations : Nat := 0

namespace Engine

def begun (engine : Engine) : Engine :=
  { engine with compilations := engine.compilations + 1 }

def keep (engine : Engine) (key : PolicyKey) (policy : Policy) : Policy × Engine :=
  let (kept, policies) := engine.policies.getOrInsert key policy
  (kept, { engine with policies })

/-- The policy under a key, which is built if there is none. The builder gets the engine and gives
back what it makes of it. -/
def compileUsing (engine : Engine) (key : PolicyKey)
    (build : Engine -> Except EvalError RuleSet × Engine) : Except EvalError Policy × Engine :=
  match engine.policies.get? key with
  | some kept => (.ok kept, engine.begun)
  | none =>
      match build engine.begun with
      | (.ok rules, built) =>
          let (kept, after) := built.keep key { serial := engine.compilations, rules }
          (.ok kept, after)
      | (.error e, built) => (.error e, built)

def compileWith (engine : Engine) (key : PolicyKey) (build : Unit -> Except EvalError RuleSet) :
    Except EvalError Policy × Engine :=
  engine.compileUsing key fun engine => (build (), engine)

def compile (engine : Engine) (document : Json) : Except EvalError Policy × Engine :=
  engine.compileWith (.ofDocument document) fun _ => RuleSet.ofJson document

def evaluateExpr (engine : Engine) (e : Expr) (facts : Json) : Except EvalError Fact :=
  e.eval engine.settings.maxExprDepth facts

def evaluate (engine : Engine) (rules : RuleSet) (facts : Json) (initial : Table Float) :
    Except EvalError Outcome :=
  rules.evaluate engine.settings.limits facts initial

def evaluateDocument (engine : Engine) (document facts : Json) (initial : Table Float) :
    Except EvalError Outcome × Engine :=
  let (policy, engine) := engine.compile document
  (policy.bind fun policy => engine.evaluate policy.rules facts initial, engine)

def tuning (engine : Engine) : Tuning Float :=
  Tuning.fill engine.settings.competition {}

/-- The competition of methods, tuned by the settings where the caller leaves it open. -/
def compete (engine : Engine) (methods : List String) (signals : Table Float)
    (t : Tuning Float) : Competition Float :=
  .settle methods signals (t.fill engine.settings.competition)

def invalidate (engine : Engine) (key : PolicyKey) : Bool × Engine :=
  let (removed, policies) := engine.policies.invalidate key
  (removed, { engine with policies })

def clear (engine : Engine) : Engine :=
  { engine with policies := engine.policies.clear }

end Engine
end Reckoner
