import Reckoner.Expr.Coding

/-!
# Templates

A template is JSON data with expressions in it.  Every outermost object that is
marked as an expression is one; all else is data.  Data is nested no deeper than
`Expr.maxNesting`, and inside an expression the count starts again.
-/

namespace Reckoner

inductive Template where
  | expr (e : Expr)
  | list (items : List Template)
  | map (entries : List (String × Template))
  | literal (value : Json)
  deriving Inhabited

namespace Template

mutual

def parseAt (depth : Nat) (value : Json) : Except EvalError Template :=
  if Expr.maxNesting < depth then
    .error (.tooDeep Expr.maxNesting)
  else
    match value with
    | .obj entries =>
        if Expr.isMarked entries then
          (Expr.ofJson (.obj entries)).map .expr
        else
          (parseEntries (depth + 1) entries).map .map
    | .arr items => (parseItems (depth + 1) items).map .list
    | .null => .ok (.literal .null)
    | .bool value => .ok (.literal (.bool value))
    | .num value => .ok (.literal (.num value))
    | .str value => .ok (.literal (.str value))

def parseItems (depth : Nat) : List Json -> Except EvalError (List Template)
  | [] => .ok []
  | item :: rest => do
      let t ← parseAt depth item
      let ts ← parseItems depth rest
      return t :: ts

def parseEntries (depth : Nat) :
    List (String × Json) -> Except EvalError (List (String × Template))
  | [] => .ok []
  | (name, value) :: rest => do
      let t ← parseAt depth value
      let ts ← parseEntries depth rest
      return (name, t) :: ts

end

def ofJson (value : Json) : Except EvalError Template :=
  parseAt 0 value

mutual

def toJson : Template -> Json
  | .expr e => e.toJson
  | .list items => .arr (toItems items)
  | .map entries => .obj (toEntries entries)
  | .literal value => value

def toItems : List Template -> List Json
  | [] => []
  | item :: rest => item.toJson :: toItems rest

def toEntries : List (String × Template) -> List (String × Json)
  | [] => []
  | (name, t) :: rest => (name, t.toJson) :: toEntries rest

end

def decoder : Json.Decoder Template :=
  .via ofJson EvalError.message

end Template
end Reckoner
