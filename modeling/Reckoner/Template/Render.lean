import Reckoner.Expr.Eval
import Reckoner.Template.Basic

/-!
# Rendering

A template is rendered by putting the value of every expression in its place.
The data around the expressions may be nested only so deep.
-/

namespace Reckoner
namespace Template

mutual

/-- The data that a template stands for, with room for some levels out of the limit. -/
def renderAt (limits : Limits) (facts : Json) (room : Nat) (t : Template) :
    Except EvalError Json :=
  match room with
  | 0 => .error (.tooDeep limits.template)
  | room + 1 =>
      match t with
      | .expr e => (e.eval limits.expr facts).map Fact.toJson
      | .list items => (renderItems limits facts room items).map .arr
      | .map entries => (renderEntries limits facts room entries).map .obj
      | .literal value => .ok value

def renderItems (limits : Limits) (facts : Json) (room : Nat) :
    List Template -> Except EvalError (List Json)
  | [] => .ok []
  | t :: ts => do
      let value ← renderAt limits facts room t
      let values ← renderItems limits facts room ts
      return value :: values

def renderEntries (limits : Limits) (facts : Json) (room : Nat) :
    List (String × Template) -> Except EvalError (List (String × Json))
  | [] => .ok []
  | (name, t) :: ts => do
      let value ← renderAt limits facts room t
      let values ← renderEntries limits facts room ts
      return (name, value) :: values

end

section Equations

variable (limits : Limits) (facts : Json) (room : Nat)

theorem renderAt_zero (t : Template) :
    renderAt limits facts 0 t = .error (.tooDeep limits.template) := by
  unfold renderAt
  rfl

theorem renderAt_expr (e : Expr) :
    renderAt limits facts (room + 1) (.expr e) =
      (e.eval limits.expr facts).map Fact.toJson := by
  unfold renderAt
  rfl

theorem renderAt_list (items : List Template) :
    renderAt limits facts (room + 1) (.list items) =
      (renderItems limits facts room items).map .arr := by
  unfold renderAt
  rfl

theorem renderAt_map (entries : List (String × Template)) :
    renderAt limits facts (room + 1) (.map entries) =
      (renderEntries limits facts room entries).map .obj := by
  unfold renderAt
  rfl

theorem renderAt_literal (value : Json) :
    renderAt limits facts (room + 1) (.literal value) = .ok value := by
  unfold renderAt
  rfl

end Equations

def render (limits : Limits) (facts : Json) (t : Template) : Except EvalError Json :=
  renderAt limits facts limits.template t

end Template
end Reckoner
