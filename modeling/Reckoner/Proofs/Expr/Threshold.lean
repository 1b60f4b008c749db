import Reckoner.Proofs.Expr.Limits
import Mathlib.Data.Nat.Find

/-!
# The limit that an evaluation needs

For each expression over given facts there is a limit that is just enough.  Under a
smaller one there is no value, and under a larger one it is the same value.  It is at
most the number of levels of the expression.  It is that number if all calls read all of
their arguments, since then every node is visited.
-/

namespace Reckoner

/-!
# The least limit that is enough
-/

def Limiting.depth : Limiting Nat where
  wider := (· ≤ ·)
  blames limit e := e = .tooDeep limit

theorem Steady.exists_threshold {α : Type} {run : Nat -> Except EvalError α} {enough : Nat}
    (h : Steady Limiting.depth (fun limit => enough ≤ limit) run) :
    ∃ value threshold, threshold ≤ enough ∧
      (∀ limit, threshold ≤ limit -> run limit = .ok value) ∧
      ∀ limit, limit < threshold -> run limit = .error (.tooDeep limit) := by
  classical
  have henough := h.answers enough (Nat.le_refl enough)
  have hsome : ∃ limit, ∃ value, run limit = .ok value := ⟨enough, henough⟩
  rcases Nat.find_spec hsome with ⟨value, hvalue⟩
  refine ⟨value, Nat.find hsome, Nat.find_min' hsome henough, ?_, ?_⟩
  · intro limit hlimit
    exact h.keeps (Nat.find hsome) limit value hlimit hvalue
  · intro limit hlimit
    cases hrun : run limit with
    | ok other => exact absurd ⟨other, hrun⟩ (Nat.find_min hsome hlimit)
    | error e => rw [h.blames limit e hrun]

namespace Expr

/-!
# Calls that read all of their arguments
-/

mutual

def calls : Expr -> List (Op × List Expr)
  | .literal _ => []
  | .list items => callsOf items
  | .var _ => []
  | .call op args => (op, args) :: callsOf args

def callsOf : List Expr -> List (Op × List Expr)
  | [] => []
  | e :: rest => e.calls ++ callsOf rest

end

/-- A call whose arguments are all read, whatever they are: its operator is not one that may stop
early, and it has no more arguments than the operator reads. -/
structure ReadsAll (call : Op × List Expr) : Prop where
  not_lazy : call.1 ∉ [Op.and, Op.or, Op.cond]
  none_unread : ∀ count, call.1.reads = .first count -> call.2.length ≤ count

variable {facts : Json} {limit : Nat}

theorem exists_left_of_evalAt {room : Nat} {e : Expr} {value : Fact}
    (h : evalAt facts limit room e = .ok value) : ∃ left, room = left + 1 := by
  cases room with
  | zero =>
      rw [evalAt_zero] at h
      cases h
  | succ left => exact ⟨left, rfl⟩

theorem evalFirst_of_length_le {room count : Nat} {es : List Expr} (hlength : es.length ≤ count) :
    evalFirst facts limit room count es =
      (evalAll facts limit room es).map (· ++ List.replicate (count - es.length) .absent) := by
  induction es generalizing count with
  | nil =>
      unfold evalFirst evalAll
      rfl
  | cons e rest ih =>
      cases count with
      | zero => exact absurd hlength (Nat.not_succ_le_zero rest.length)
      | succ count =>
          unfold evalFirst evalAll
          dsimp only
          rw [ih (Nat.le_of_succ_le_succ hlength), List.length_cons, Nat.succ_sub_succ]
          cases evalAt facts limit room e with
          | error fault => rfl
          | ok x => cases evalAll facts limit room rest <;> rfl

mutual

theorem nesting_lt_of_evalAt : ∀ (e : Expr) {room : Nat} {value : Fact},
    (∀ call ∈ e.calls, ReadsAll call) -> evalAt facts limit room e = .ok value ->
    e.nesting < room
  | .literal _, room, _, _, h => by
      rcases exists_left_of_evalAt h with ⟨left, rfl⟩
      exact Nat.zero_lt_succ left
  | .list items, room, _, hcalls, h => by
      rcases exists_left_of_evalAt h with ⟨left, rfl⟩
      rw [evalAt_list] at h
      rcases exists_of_map_eq_ok h with ⟨values, hvalues, _⟩
      exact Nat.lt_succ_of_le (nestingOf_le_of_evalAll items hcalls hvalues)
  | .var _, room, _, _, h => by
      rcases exists_left_of_evalAt h with ⟨left, rfl⟩
      exact Nat.zero_lt_succ left
  | .call op args, room, _, hcalls, h => by
      rcases exists_left_of_evalAt h with ⟨left, rfl⟩
      have hcall := hcalls (op, args) List.mem_cons_self
      have hargs : ∀ call ∈ callsOf args, ReadsAll call :=
        fun call hmem => hcalls call (List.mem_cons_of_mem (op, args) hmem)
      rcases op.reads_cases with ⟨count, hfirst⟩ | hall | hlazy
      · rw [evalAt_first facts limit left hfirst,
          evalFirst_of_length_le (hcall.none_unread count hfirst)] at h
        rcases exists_of_map_eq_ok h with ⟨filled, hfilled, _⟩
        rcases exists_of_map_eq_ok hfilled with ⟨values, hvalues, _⟩
        exact Nat.lt_succ_of_le (nestingOf_le_of_evalAll args hargs hvalues)
      · rw [evalAt_all facts limit left hall] at h
        rcases exists_of_map_eq_ok h with ⟨values, hvalues, _⟩
        exact Nat.lt_succ_of_le (nestingOf_le_of_evalAll args hargs hvalues)
      · refine absurd ?_ hcall.not_lazy
        rcases hlazy with rfl | rfl | rfl
        · exact List.mem_cons_self
        · exact List.mem_cons_of_mem Op.and List.mem_cons_self
        · exact List.mem_cons_of_mem Op.and (List.mem_cons_of_mem Op.or List.mem_cons_self)

theorem nestingOf_le_of_evalAll : ∀ (es : List Expr) {room : Nat} {values : List Fact},
    (∀ call ∈ callsOf es, ReadsAll call) -> evalAll facts limit room es = .ok values ->
    nestingOf es ≤ room
  | [], room, _, _, _ => Nat.zero_le room
  | e :: rest, room, _, hcalls, h => by
      unfold evalAll at h
      rcases exists_of_bind_eq_ok h with ⟨x, hx, h⟩
      rcases exists_of_bind_eq_ok h with ⟨xs, hxs, _⟩
      have hhead := nesting_lt_of_evalAt e
        (fun call hmem => hcalls call (List.mem_append_left (callsOf rest) hmem)) hx
      have hrest := nestingOf_le_of_evalAll rest
        (fun call hmem => hcalls call (List.mem_append_right e.calls hmem)) hxs
      exact Nat.max_le.mpr ⟨hhead, hrest⟩

end

/-!
# The threshold of an evaluation
-/

theorem eval_steady_depth (facts : Json) (e : Expr) :
    Steady Limiting.depth (fun limit => e.nesting + 1 ≤ limit) fun limit => e.eval limit facts :=
  (eval_steady facts e).under (fun limit => ⟨limit, limit⟩)
    (fun _ _ hwider => ⟨hwider, hwider⟩) fun _ _ hblames => hblames.elim id id

/-- An expression has no two values, whatever the limits are and the room that is left. -/
theorem evalAt_unique {room limit' room' : Nat} {e : Expr} {x y : Fact}
    (hx : evalAt facts limit room e = .ok x) (hy : evalAt facts limit' room' e = .ok y) :
    x = y := by
  have hsteady := evalAt_steady facts e
  let most : Level := ⟨⟨max limit limit', 0⟩, max room room'⟩
  have hleft : Level.limiting.wider ⟨⟨limit, 0⟩, room⟩ most :=
    ⟨⟨Nat.le_max_left limit limit', Nat.le_refl 0⟩, Nat.le_max_left room room'⟩
  have hright : Level.limiting.wider ⟨⟨limit', 0⟩, room'⟩ most :=
    ⟨⟨Nat.le_max_right limit limit', Nat.le_refl 0⟩, Nat.le_max_right room room'⟩
  have hwide := hsteady.keeps _ _ x hleft hx
  rw [hsteady.keeps _ _ y hright hy] at hwide
  exact (Except.ok.inj hwide).symm

theorem eq_tooDeep_of_evalAt {room : Nat} {e : Expr} {fault : EvalError}
    (h : evalAt facts limit room e = .error fault) : fault = .tooDeep limit := by
  rcases (evalAt_steady facts e).blames ⟨⟨limit, limit⟩, room⟩ fault h with hexpr | htemplate
  · exact hexpr
  · exact htemplate

/-- There is one value, which every limit beyond the nesting gives, and no limit gives another. -/
theorem exists_value (e : Expr) (facts : Json) :
    ∃ value, (∀ limit, e.nesting < limit -> e.eval limit facts = .ok value) ∧
      ∀ limit other, e.eval limit facts = .ok other -> other = value := by
  have hsteady := eval_steady_depth facts e
  rcases hsteady.answers (e.nesting + 1) (Nat.le_refl _) with ⟨value, hvalue⟩
  refine ⟨value, fun limit hlimit => hsteady.keeps _ limit value hlimit hvalue, ?_⟩
  intro limit other hother
  exact evalAt_unique hother hvalue

/-- A limit decides whether there is a value, and the limits under which there is one are those
from a threshold on. -/
theorem eval_threshold (e : Expr) (facts : Json) :
    ∃ value threshold, 1 ≤ threshold ∧ threshold ≤ e.nesting + 1 ∧
      (∀ limit, threshold ≤ limit -> e.eval limit facts = .ok value) ∧
      (∀ limit, limit < threshold -> e.eval limit facts = .error (.tooDeep limit)) ∧
      ((∀ call ∈ e.calls, ReadsAll call) -> threshold = e.nesting + 1) := by
  rcases (eval_steady_depth facts e).exists_threshold with
    ⟨value, threshold, hmost, hvalue, hfault⟩
  have hroot : 1 ≤ threshold := by
    rcases exists_left_of_evalAt (hvalue threshold (Nat.le_refl threshold)) with ⟨left, hleft⟩
    rw [hleft]
    exact Nat.succ_le_succ (Nat.zero_le left)
  refine ⟨value, threshold, hroot, hmost, hvalue, hfault, ?_⟩
  intro hcalls
  have hleast : e.nesting < threshold :=
    nesting_lt_of_evalAt e hcalls (hvalue threshold (Nat.le_refl threshold))
  exact Nat.le_antisymm hmost hleast

/-- A conjunction that is settled by its first argument needs two levels out of four. Without the
conjunction all three levels are needed. -/
theorem eval_threshold_unread :
    let inner : Expr := .call .not [.call .not [.var "a"]]
    let e : Expr := .call .and [.bool false, inner]
    (∃ value threshold, 1 ≤ threshold ∧ threshold ≤ 4 ∧
      (∀ limit, threshold ≤ limit -> e.eval limit (.obj []) = .ok value) ∧
      (∀ limit, limit < threshold -> e.eval limit (.obj []) = .error (.tooDeep limit)) ∧
      threshold = 2) ∧
    (∀ call ∈ inner.calls, ReadsAll call) ∧
      ∀ limit, limit < 3 -> inner.eval limit (.obj []) = .error (.tooDeep limit) := by
  intro inner e
  have hcalls : ∀ call ∈ inner.calls, ReadsAll call := by
    intro call hcall
    change call ∈ [(Op.not, [Expr.call .not [.var "a"]]), (Op.not, [Expr.var "a"])] at hcall
    rcases List.mem_pair.mp hcall with rfl | rfl
    · exact ⟨by decide, fun count hfirst => by cases hfirst; decide⟩
    · exact ⟨by decide, fun count hfirst => by cases hfirst; decide⟩
  constructor
  · rcases eval_threshold e (.obj []) with ⟨value, threshold, hroot, hmost, hvalue, hfault, _⟩
    refine ⟨value, threshold, hroot, hmost, hvalue, hfault, ?_⟩
    have hone : e.eval 1 (.obj []) = .error (.tooDeep 1) := rfl
    have htwo : e.eval 2 (.obj []) = .ok (.bool false) := rfl
    apply Nat.le_antisymm
    · by_contra hlarge
      rw [hfault 2 (Nat.lt_of_not_le hlarge)] at htwo
      cases htwo
    · by_contra hsmall
      rw [hvalue 1 (Nat.le_of_lt_succ (Nat.lt_of_not_le hsmall))] at hone
      cases hone
  · refine ⟨hcalls, ?_⟩
    rcases eval_threshold inner (.obj []) with ⟨_, threshold, _, _, _, hfault, hexact⟩
    have hthree : threshold = 3 := hexact hcalls
    rw [← hthree]
    exact hfault

end Expr
end Reckoner
