import Reckoner.Expr.Basic
import Reckoner.Expr.Error

/-!
# Expressions as JSON

Scalars and arrays stand for themselves.  An object stands for an operator call
if it has an entry `op`, else for a path if it has an entry `var`.  Other objects
are no expressions, and neither are values nested deeper than `Expr.maxNesting`.
-/

namespace Reckoner
namespace Expr

/-- The greatest depth at which a node of an expression may stand, the root being at depth 0. -/
def maxNesting : Nat := 256

def isMarked (entries : List (String × Json)) : Bool :=
  Table.contains entries "op" || Table.contains entries "var"

mutual

/-- The expression that a value at a depth stands for. -/
def parseAt (depth : Nat) (value : Json) : Except EvalError Expr :=
  if maxNesting < depth then
    .error (.tooDeep maxNesting)
  else
    match value with
    | .null => .ok (.literal .null)
    | .bool value => .ok (.literal (.bool value))
    | .num value => .ok (.literal (.num value.toFloat))
    | .str value => .ok (.literal (.str value))
    | .arr items => (parseItems (depth + 1) items).map .list
    | .obj entries =>
        match Table.get? entries "op" with
        | some (.str name) =>
            match Op.ofName? name with
            | none => .error (.unknownOperator name)
            | some op => (parseArgs (depth + 1) name entries).map (.call op)
        | some _ => .error (.malformed .operatorNotText)
        | none =>
            match Table.get? entries "var" with
            | some (.str path) => .ok (.var path)
            | some _ => .error (.malformed .pathNotText)
            | none => .error (.malformed .neither)

def parseItems (depth : Nat) : List Json -> Except EvalError (List Expr)
  | [] => .ok []
  | item :: rest => do
      let e ← parseAt depth item
      let es ← parseItems depth rest
      return e :: es

/-- The arguments among the entries of a call: none, unless an array is given. -/
def parseArgs (depth : Nat) (operator : String) :
    List (String × Json) -> Except EvalError (List Expr)
  | [] => .ok []
  | (name, value) :: rest =>
      if name = "args" then
        match value with
        | .arr items => parseItems depth items
        | .null => .ok []
        | _ => .error (.malformed (.argumentsNotList operator))
      else
        parseArgs depth operator rest

end

def ofJson (value : Json) : Except EvalError Expr :=
  parseAt 0 value

mutual

def toJson : Expr -> Json
  | .literal value => value.toJson
  | .list items => .arr (toItems items)
  | .var path => .obj [("var", .str path)]
  | .call op args => .obj [("args", .arr (toItems args)), ("op", .str op.name)]

def toItems : List Expr -> List Json
  | [] => []
  | item :: rest => item.toJson :: toItems rest

end

def decoder : Json.Decoder Expr :=
  .via ofJson EvalError.message

end Expr
end Reckoner
