import Reckoner.Expr.Eval

/-!
# Equations of evaluation

One equation for each form of an expression.  Calls fall into five classes by the
arguments that their operators read, and proofs about evaluation have one case for
each class.
-/

namespace Reckoner

namespace Op

theorem reads_cases (op : Op) :
    (∃ count, op.reads = .first count) ∨ op.reads = .all ∨ op = .and ∨ op = .or ∨ op = .cond := by
  cases op with
  | and => exact Or.inr (Or.inr (Or.inl rfl))
  | or => exact Or.inr (Or.inr (Or.inr (Or.inl rfl)))
  | cond => exact Or.inr (Or.inr (Or.inr (Or.inr rfl)))
  | add | sub | mul | div | min | max | sum => exact Or.inr (Or.inl rfl)
  | not | len | neg | abs => exact Or.inl ⟨1, rfl⟩
  | eq | ne | lt | lte | gt | gte | isIn | overlap | intersect => exact Or.inl ⟨2, rfl⟩
  | clamp => exact Or.inl ⟨3, rfl⟩

end Op

namespace Expr

variable (facts : Json) (limit room : Nat)

theorem evalAt_zero (e : Expr) : evalAt facts limit 0 e = .error (.tooDeep limit) := by
  cases e <;> rfl

theorem evalAt_literal (value : Literal) :
    evalAt facts limit (room + 1) (.literal value) = .ok value.fact := rfl

theorem evalAt_list (items : List Expr) :
    evalAt facts limit (room + 1) (.list items) =
      (evalAll facts limit room items).map .list := rfl

theorem evalAt_var (path : String) :
    evalAt facts limit (room + 1) (.var path) = .ok (facts.lookup path) := rfl

theorem evalAt_first {op : Op} {count : Nat} (hreads : op.reads = .first count)
    (args : List Expr) :
    evalAt facts limit (room + 1) (.call op args) =
      (evalFirst facts limit room count args).map (op.apply (Op.ne_lazy_of_first hreads)) := by
  rw [evalAt.eq_def]
  dsimp only
  split <;> rename_i hother <;> cases hreads.symm.trans hother
  rfl

theorem evalAt_all {op : Op} (hreads : op.reads = .all) (args : List Expr) :
    evalAt facts limit (room + 1) (.call op args) =
      (evalAll facts limit room args).map (op.apply (Op.ne_lazy_of_all hreads)) := by
  rw [evalAt.eq_def]
  dsimp only
  split <;> rename_i hother <;> cases hreads.symm.trans hother
  rfl

theorem evalAt_and (args : List Expr) :
    evalAt facts limit (room + 1) (.call .and args) =
      (evalSome facts limit room false args).map fun found => .bool (!found) := rfl

theorem evalAt_or (args : List Expr) :
    evalAt facts limit (room + 1) (.call .or args) =
      (evalSome facts limit room true args).map .bool := rfl

theorem evalAt_cond_nil : evalAt facts limit (room + 1) (.call .cond []) = .ok .null := rfl

theorem evalAt_cond_cons (test : Expr) (branches : List Expr) :
    evalAt facts limit (room + 1) (.call .cond (test :: branches)) =
      evalAt facts limit room test >>= fun x =>
        evalBranch facts limit room branches (if x.truthy then 0 else 1) := rfl

end Expr
end Reckoner
