import Reckoner.Expr.Op
import Reckoner.Fact.Basic

/-!
# Expressions

An expression is a literal, a list, a path into the facts, or an operator with its
arguments.
-/

namespace Reckoner

inductive Literal where
  | null
  | bool (value : Bool)
  | num (value : Float)
  | str (value : String)
  deriving DecidableEq, Inhabited

namespace Literal

def fact : Literal -> Fact
  | .null => .null
  | .bool value => .bool value
  | .num value => .num value
  | .str value => .str value

def toJson : Literal -> Json
  | .null => .null
  | .bool value => .bool value
  | .num value => .ofNumber value
  | .str value => .str value

end Literal

inductive Expr where
  | literal (value : Literal)
  | list (items : List Expr)
  | var (path : String)
  | call (op : Op) (args : List Expr)
  deriving Inhabited

namespace Expr

def number (value : Float) : Expr :=
  .literal (.num value)

def text (value : String) : Expr :=
  .literal (.str value)

def bool (value : Bool) : Expr :=
  .literal (.bool value)

end Expr
end Reckoner
