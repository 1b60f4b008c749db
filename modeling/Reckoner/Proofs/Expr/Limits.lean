import Reckoner.Proofs.Expr.Coding
import Reckoner.Proofs.Expr.Equations

/-!
# Limits and answers

A limit on nesting decides whether there is an answer, and never which one.  This is a
property of computations that run under limits, and it is kept when one computation
follows another: what the first finds is found again under wider limits, so the second
is the same one there.  It holds of evaluation level by level.  No operator has an error
of its own, whatever the facts are.
-/

namespace Reckoner

/-!
# Computations under limits
-/

/-- How limits compare, and which errors speak of them. -/
structure Limiting (ι : Type) where
  wider : ι -> ι -> Prop
  blames : ι -> EvalError -> Prop

/-- A computation that keeps its answer under wider limits, fails only by errors that speak of its
limits, and has an answer under all limits that fit. -/
structure Steady {ι α : Type} (L : Limiting ι) (fits : ι -> Prop)
    (run : ι -> Except EvalError α) : Prop where
  keeps : ∀ i j value, L.wider i j -> run i = .ok value -> run j = .ok value
  blames : ∀ i e, run i = .error e -> L.blames i e
  answers : ∀ i, fits i -> ∃ value, run i = .ok value

namespace Steady

variable {ι κ α β : Type} {L : Limiting ι} {fits : ι -> Prop} {run : ι -> Except EvalError α}

theorem ok (value : α) : Steady L fits fun _ => .ok value where
  keeps := fun _ _ _ _ hvalue => hvalue
  blames := fun _ _ herror => nomatch herror
  answers := fun _ _ => ⟨value, rfl⟩

theorem bind (h : Steady L fits run) {next : α -> ι -> Except EvalError β}
    (hnext : ∀ x, Steady L fits (next x)) :
    Steady L fits fun i => run i >>= fun x => next x i := by
  constructor
  · intro i j value hwider hvalue
    cases hx : run i with
    | error e =>
        rw [hx] at hvalue
        cases hvalue
    | ok x =>
        rw [hx] at hvalue
        rw [h.keeps i j x hwider hx]
        exact (hnext x).keeps i j value hwider hvalue
  · intro i e herror
    cases hx : run i with
    | error e' =>
        rw [hx] at herror
        cases herror
        exact h.blames i e hx
    | ok x =>
        rw [hx] at herror
        exact (hnext x).blames i e herror
  · intro i hfits
    rcases h.answers i hfits with ⟨x, hx⟩
    rw [hx]
    exact (hnext x).answers i hfits

theorem map (h : Steady L fits run) (f : α -> β) : Steady L fits fun i => (run i).map f := by
  have hmap : (fun i => (run i).map f) = fun i => run i >>= fun x => .ok (f x) := by
    funext i
    cases run i with
    | error e => rfl
    | ok x => rfl
  rw [hmap]
  exact h.bind fun x => ok (f x)

theorem narrow (h : Steady L fits run) {fewer : ι -> Prop} (hfewer : ∀ i, fewer i -> fits i) :
    Steady L fewer run where
  keeps := h.keeps
  blames := h.blames
  answers := fun i hi => h.answers i (hfewer i hi)

/-- A computation for a member of a list, followed by one for the members after it. -/
theorem cons {P : κ -> ι -> Prop} {x : κ} {xs : List κ} (h : Steady L (P x) run)
    {next : α -> ι -> Except EvalError β}
    (hnext : ∀ y, Steady L (fun i => ∀ z ∈ xs, P z i) (next y)) :
    Steady L (fun i => ∀ z ∈ x :: xs, P z i) fun i => run i >>= fun y => next y i := by
  apply bind
  · exact h.narrow fun i hfits => hfits x List.mem_cons_self
  · intro y
    exact (hnext y).narrow fun i hfits z hz => hfits z (List.mem_cons_of_mem x hz)

/-- The same computation, with its limits taken from others. -/
theorem under (h : Steady L fits run) {M : Limiting κ} (limits : κ -> ι)
    (hwider : ∀ a b, M.wider a b -> L.wider (limits a) (limits b))
    (hblames : ∀ a e, L.blames (limits a) e -> M.blames a e) :
    Steady M (fun a => fits (limits a)) fun a => run (limits a) where
  keeps := fun a b value hab => h.keeps (limits a) (limits b) value (hwider a b hab)
  blames := fun a e he => hblames a e (h.blames (limits a) e he)
  answers := fun a ha => h.answers (limits a) ha

end Steady

/-!
# Levels

Nested data are computed level by level.  What is left of a limit is counted down, and
the limits themselves are only named when nothing is left.
-/

structure Level where
  limits : Limits
  left : Nat

namespace Limits

def Exceeded (limits : Limits) (e : EvalError) : Prop :=
  e = .tooDeep limits.expr ∨ e = .tooDeep limits.template

def limiting : Limiting Limits where
  wider a b := a.expr ≤ b.expr ∧ a.template ≤ b.template
  blames := Exceeded

end Limits

namespace Level

def limiting : Limiting Level where
  wider a b := Limits.limiting.wider a.limits b.limits ∧ a.left ≤ b.left
  blames a := a.limits.Exceeded

end Level

/-- A computation of one more level, which fails if no level is left. -/
theorem Steady.deeper {α : Type} {fits inside : Level -> Prop}
    {run inner : Level -> Except EvalError α} (h : Steady Level.limiting inside inner)
    {fault : Limits -> EvalError} (hfault : ∀ limits : Limits, limits.Exceeded (fault limits))
    (hzero : ∀ limits, run ⟨limits, 0⟩ = .error (fault limits))
    (hsucc : ∀ limits left, run ⟨limits, left + 1⟩ = inner ⟨limits, left⟩)
    (hnone : ∀ limits, ¬ fits ⟨limits, 0⟩)
    (hinside : ∀ limits left, fits ⟨limits, left + 1⟩ -> inside ⟨limits, left⟩) :
    Steady Level.limiting fits run := by
  constructor
  · rintro ⟨limits, left⟩ ⟨limits', left'⟩ value ⟨hlimits, hleft⟩ hvalue
    cases left with
    | zero =>
        rw [hzero] at hvalue
        cases hvalue
    | succ left =>
        cases left' with
        | zero => exact absurd hleft (Nat.not_succ_le_zero left)
        | succ left' =>
            rw [hsucc] at hvalue ⊢
            exact h.keeps ⟨limits, left⟩ ⟨limits', left'⟩ value
              ⟨hlimits, Nat.le_of_lt_succ hleft⟩ hvalue
  · rintro ⟨limits, left⟩ e herror
    cases left with
    | zero =>
        rw [hzero] at herror
        cases herror
        exact hfault limits
    | succ left =>
        rw [hsucc] at herror
        exact h.blames ⟨limits, left⟩ e herror
  · rintro ⟨limits, left⟩ hfits
    cases left with
    | zero => exact absurd hfits (hnone limits)
    | succ left =>
        rw [hsucc]
        exact h.answers ⟨limits, left⟩ (hinside limits left hfits)

/-!
# Expressions

Room for as many levels as an expression has is enough.  Arguments that an operator does
not read, and those after the one that settles a lazy operator, are not evaluated, so
less may be enough.
-/

namespace Expr

/-- A computation for an expression, from one for what is below its root. -/
theorem steady_evalAt {facts : Json} {e : Expr} {levels : Nat} (hlevels : e.nesting = levels)
    {inner : Level -> Except EvalError Fact}
    (h : Steady Level.limiting (fun a => levels ≤ a.left) inner)
    (hsucc : ∀ (limits : Limits) left,
      evalAt facts limits.expr (left + 1) e = inner ⟨limits, left⟩) :
    Steady Level.limiting (fun a => e.nesting < a.left)
      fun a => evalAt facts a.limits.expr a.left e := by
  apply h.deeper (fun limits => Or.inl rfl) (fun limits => evalAt_zero facts limits.expr e) hsucc
  · exact fun limits => Nat.not_lt_zero e.nesting
  · intro limits left hfits
    rw [← hlevels]
    exact Nat.le_of_lt_succ hfits

section Siblings

variable {α : Type} {e : Expr} {es : List Expr}

theorem steady_head {first : Level -> Except EvalError α}
    (h : Steady Level.limiting (fun a => e.nesting < a.left) first) :
    Steady Level.limiting (fun a => nestingOf (e :: es) ≤ a.left) first := by
  apply h.narrow
  intro a hfits
  exact Nat.le_trans (Nat.le_max_left (e.nesting + 1) (nestingOf es)) hfits

theorem steady_tail {rest : Level -> Except EvalError α}
    (h : Steady Level.limiting (fun a => nestingOf es ≤ a.left) rest) :
    Steady Level.limiting (fun a => nestingOf (e :: es) ≤ a.left) rest := by
  apply h.narrow
  intro a hfits
  exact Nat.le_trans (Nat.le_max_right (e.nesting + 1) (nestingOf es)) hfits

/-- A computation for an expression, followed by one for those beside it. -/
theorem steady_cons {first : Level -> Except EvalError Fact}
    {rest : Fact -> Level -> Except EvalError α}
    (hfirst : Steady Level.limiting (fun a => e.nesting < a.left) first)
    (hrest : ∀ x, Steady Level.limiting (fun a => nestingOf es ≤ a.left) (rest x)) :
    Steady Level.limiting (fun a => nestingOf (e :: es) ≤ a.left)
      fun a => first a >>= fun x => rest x a :=
  (steady_head hfirst).bind fun x => steady_tail (hrest x)

end Siblings

variable (facts : Json)

mutual

theorem evalAt_steady : ∀ e : Expr,
    Steady Level.limiting (fun a => e.nesting < a.left)
      fun a => evalAt facts a.limits.expr a.left e
  | .literal value =>
      steady_evalAt rfl (.ok value.fact) fun limits left =>
        evalAt_literal facts limits.expr left value
  | .list items =>
      steady_evalAt rfl ((evalAll_steady items).map .list) fun limits left =>
        evalAt_list facts limits.expr left items
  | .var path =>
      steady_evalAt rfl (.ok (facts.lookup path)) fun limits left =>
        evalAt_var facts limits.expr left path
  | .call op args => by
      rcases op.reads_cases with ⟨count, hfirst⟩ | hall | hand | hor | hcond
      · exact steady_evalAt rfl ((evalFirst_steady args count).map _) fun limits left =>
          evalAt_first facts limits.expr left hfirst args
      · exact steady_evalAt rfl ((evalAll_steady args).map _) fun limits left =>
          evalAt_all facts limits.expr left hall args
      · rw [hand]
        exact steady_evalAt rfl ((evalSome_steady args false).map fun found => .bool (!found))
          fun limits left => evalAt_and facts limits.expr left args
      · rw [hor]
        exact steady_evalAt rfl ((evalSome_steady args true).map .bool)
          fun limits left => evalAt_or facts limits.expr left args
      · rw [hcond]
        cases args with
        | nil =>
            exact steady_evalAt rfl (.ok .null) fun limits left =>
              evalAt_cond_nil facts limits.expr left
        | cons test branches =>
            have hchoice := steady_cons (evalAt_steady test) fun x =>
              evalBranch_steady branches (if x.truthy then 0 else 1)
            exact steady_evalAt rfl hchoice fun limits left =>
              evalAt_cond_cons facts limits.expr left test branches

theorem evalAll_steady : ∀ es : List Expr,
    Steady Level.limiting (fun a => nestingOf es ≤ a.left)
      fun a => evalAll facts a.limits.expr a.left es
  | [] => by
      unfold evalAll
      exact .ok []
  | e :: es => by
      unfold evalAll
      exact steady_cons (evalAt_steady e) fun x => (evalAll_steady es).bind fun xs => .ok (x :: xs)

theorem evalFirst_steady : ∀ (es : List Expr) (count : Nat),
    Steady Level.limiting (fun a => nestingOf es ≤ a.left)
      fun a => evalFirst facts a.limits.expr a.left count es
  | [], count => by
      unfold evalFirst
      exact Steady.ok (List.replicate count Fact.absent)
  | e :: es, 0 => by
      unfold evalFirst
      exact .ok []
  | e :: es, count + 1 => by
      unfold evalFirst
      exact steady_cons (evalAt_steady e) fun x =>
        (evalFirst_steady es count).bind fun xs => .ok (x :: xs)

theorem evalSome_steady : ∀ (es : List Expr) (wanted : Bool),
    Steady Level.limiting (fun a => nestingOf es ≤ a.left)
      fun a => evalSome facts a.limits.expr a.left wanted es
  | [], wanted => by
      unfold evalSome
      exact .ok false
  | e :: es, wanted => by
      unfold evalSome
      apply steady_cons (evalAt_steady e)
      intro x
      split
      · exact .ok true
      · exact evalSome_steady es wanted

theorem evalBranch_steady : ∀ (es : List Expr) (i : Nat),
    Steady Level.limiting (fun a => nestingOf es ≤ a.left)
      fun a => evalBranch facts a.limits.expr a.left es i
  | [], _ => by
      unfold evalBranch
      exact Steady.ok Fact.null
  | e :: es, 0 => by
      unfold evalBranch
      exact steady_head (evalAt_steady e)
  | e :: es, i + 1 => by
      unfold evalBranch
      exact steady_tail (evalBranch_steady es i)

end

theorem eval_steady (e : Expr) :
    Steady Limits.limiting (fun limits => e.nesting < limits.expr)
      fun limits => e.eval limits.expr facts :=
  (evalAt_steady facts e).under (fun limits => ⟨limits, limits.expr⟩)
    (fun _ _ hwider => ⟨hwider, hwider.1⟩) fun _ _ hblames => hblames

end Expr
end Reckoner
