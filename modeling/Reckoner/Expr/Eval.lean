import Reckoner.Expr.Coding
import Reckoner.Expr.Operation
import Reckoner.Fact.Path

/-!
# Evaluation

The value of an expression over facts.  Evaluation may go only so deep: with room
for `n` levels an expression of `n` nested levels has a value.  Only arguments that
an operator reads are evaluated, from left to right.
-/

namespace Reckoner

structure Limits where
  expr : Nat := 64
  template : Nat := 32
  deriving DecidableEq, Inhabited

namespace Expr

mutual

/-- The value of an expression, with room for some levels out of a limit. -/
def evalAt (facts : Json) (limit room : Nat) (e : Expr) : Except EvalError Fact :=
  match room with
  | 0 => .error (.tooDeep limit)
  | room + 1 =>
      match e with
      | .literal value => .ok value.fact
      | .list items => (evalAll facts limit room items).map .list
      | .var path => .ok (facts.lookup path)
      | .call op args =>
          match h : op.reads with
          | .first count =>
              (evalFirst facts limit room count args).map (op.apply (Op.ne_lazy_of_first h))
          | .all => (evalAll facts limit room args).map (op.apply (Op.ne_lazy_of_all h))
          | .lazy =>
              match op, h with
              | .and, _ => (evalSome facts limit room false args).map fun found => .bool (!found)
              | .or, _ => (evalSome facts limit room true args).map .bool
              | .cond, _ =>
                  match args with
                  | [] => .ok .null
                  | test :: branches => do
                      let x ← evalAt facts limit room test
                      evalBranch facts limit room branches (if x.truthy then 0 else 1)

def evalAll (facts : Json) (limit room : Nat) : List Expr -> Except EvalError (List Fact)
  | [] => .ok []
  | e :: es => do
      let x ← evalAt facts limit room e
      let xs ← evalAll facts limit room es
      return x :: xs

/-- The values of the first expressions of a list, filled up with absent facts. -/
def evalFirst (facts : Json) (limit room count : Nat) : List Expr -> Except EvalError (List Fact)
  | [] => .ok (List.replicate count .absent)
  | e :: es =>
      match count with
      | 0 => .ok []
      | count + 1 => do
          let x ← evalAt facts limit room e
          let xs ← evalFirst facts limit room count es
          return x :: xs

/-- Whether some expression of a list has a given truth value. Those after it are not evaluated. -/
def evalSome (facts : Json) (limit room : Nat) (wanted : Bool) :
    List Expr -> Except EvalError Bool
  | [] => .ok false
  | e :: es => do
      let x ← evalAt facts limit room e
      if x.truthy = wanted then
        return true
      else
        evalSome facts limit room wanted es

/-- The value of the expression at an index of a list, which is null beyond its end. -/
def evalBranch (facts : Json) (limit room : Nat) : List Expr -> Nat -> Except EvalError Fact
  | [], _ => .ok .null
  | e :: _, 0 => evalAt facts limit room e
  | _ :: es, i + 1 => evalBranch facts limit room es i

end

def eval (limit : Nat) (facts : Json) (e : Expr) : Except EvalError Fact :=
  evalAt facts limit limit e

end Expr

def evalJson (e facts : Json) : Except EvalError Fact := do
  (← Expr.ofJson e).eval ({} : Limits).expr facts

end Reckoner
