import Reckoner.Json.Decoder

/-!
# Errors of expressions and rule sets
-/

namespace Reckoner

inductive Malformed where
  | operatorNotText
  | argumentsNotList (operator : String)
  | pathNotText
  | neither
  deriving DecidableEq

namespace Malformed

def message : Malformed -> String
  | .operatorNotText => "`op` must be a string"
  | .argumentsNotList operator => "`args` of `" ++ operator ++ "` must be an array"
  | .pathNotText => "`var` must be a string path"
  | .neither => "object is neither an operator call nor a variable reference"

end Malformed

inductive EvalError where
  | unknownOperator (name : String)
  | malformed (cause : Malformed)
  | tooDeep (limit : Nat)
  | invalidRuleSet (cause : Json.DecodeError)
  deriving DecidableEq

/-- What a mismatch says. Faults of a text have no message of their own. -/
def Json.DecodeError.message? : Json.DecodeError -> Option String
  | .data mismatch => some mismatch.message
  | .text _ => none

def Json.DecodeError.located? : Json.DecodeError -> Option String
  | .data mismatch => some mismatch.located
  | .text _ => none

namespace EvalError

def message? : EvalError -> Option String
  | .unknownOperator name => some ("unknown operator: " ++ name)
  | .malformed cause => some ("malformed expression: " ++ cause.message)
  | .tooDeep limit => some ("nesting depth exceeded limit of " ++ limit.repr)
  | .invalidRuleSet cause => cause.message?.map ("invalid rule set: " ++ ·)

def message (e : EvalError) : String :=
  e.message?.getD ""

def located : EvalError -> String
  | .invalidRuleSet cause => (cause.located?.map ("invalid rule set: " ++ ·)).getD ""
  | other => other.message

end EvalError
end Reckoner
