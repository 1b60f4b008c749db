import Reckoner.Proofs.Expr.Threshold

/-!
# The values of arguments

An expression has one value under all limits that are large enough for it.  So a call that
has a value can be described by the values of its arguments, which are found under other
limits than its own.
-/

namespace Reckoner

namespace Expr

variable {facts : Json} {limit room : Nat} {es : List Expr}

/-!
# One expression
-/

/-- The fact that an expression has for its value under some limit. -/
def HasValue (facts : Json) (e : Expr) (x : Fact) : Prop :=
  ∃ limit, e.eval limit facts = .ok x

theorem hasValue_of_evalAt {room : Nat} {e : Expr} {x : Fact}
    (h : evalAt facts limit room e = .ok x) : HasValue facts e x := by
  rcases exists_value e facts with ⟨value, hvalue, _⟩
  have heval := hvalue (e.nesting + 1) (Nat.lt_succ_self _)
  rw [evalAt_unique h heval]
  exact ⟨e.nesting + 1, heval⟩

theorem HasValue.unique {e : Expr} {x y : Fact} (hx : HasValue facts e x)
    (hy : HasValue facts e y) : x = y := by
  rcases hx with ⟨limit, hx⟩
  rcases hy with ⟨limit', hy⟩
  exact evalAt_unique hx hy

/-!
# Lists of expressions
-/

theorem evalAll_eq_ok_iff {xs : List Fact} :
    evalAll facts limit room es = .ok xs ↔
      List.Forall₂ (fun e x => evalAt facts limit room e = .ok x) es xs := by
  induction es generalizing xs with
  | nil =>
      unfold evalAll
      rw [List.forall₂_nil_left_iff, Except.ok.injEq]
      exact eq_comm
  | cons e rest ih =>
      unfold evalAll
      rw [List.forall₂_cons_left_iff]
      constructor
      · intro h
        rcases exists_of_bind_eq_ok h with ⟨x, hx, h⟩
        rcases exists_of_bind_eq_ok h with ⟨ys, hys, h⟩
        exact ⟨x, ys, hx, ih.mp hys, (Except.ok.inj h).symm⟩
      · intro h
        rcases h with ⟨x, ys, hx, hys, rfl⟩
        rw [hx, ih.mpr hys]
        rfl

theorem hasValues_of_evalAll {xs : List Fact} (h : evalAll facts limit room es = .ok xs) :
    List.Forall₂ (HasValue facts) es xs :=
  (evalAll_eq_ok_iff.mp h).imp fun _ _ => hasValue_of_evalAt

theorem exists_values (facts : Json) (es : List Expr) :
    ∃ xs, List.Forall₂ (HasValue facts) es xs := by
  induction es with
  | nil => exact ⟨[], .nil⟩
  | cons e rest ih =>
      rcases ih with ⟨xs, hxs⟩
      rcases exists_value e facts with ⟨x, hx, _⟩
      exact ⟨x :: xs, .cons ⟨e.nesting + 1, hx _ (Nat.lt_succ_self _)⟩ hxs⟩

theorem hasValues_unique {xs ys : List Fact} (hxs : List.Forall₂ (HasValue facts) es xs)
    (hys : List.Forall₂ (HasValue facts) es ys) : xs = ys := by
  have hunique : Relator.RightUnique (HasValue facts) := fun _ _ _ hx hy => hx.unique hy
  exact List.right_unique_forall₂' hunique hxs hys

theorem exists_of_hasValue_list {items : List Expr} {x : Fact}
    (h : HasValue facts (.list items) x) :
    ∃ xs, x = .list xs ∧ List.Forall₂ (HasValue facts) items xs := by
  rcases h with ⟨limit, h⟩
  rcases exists_left_of_evalAt h with ⟨left, hleft⟩
  unfold eval at h
  rw [hleft, evalAt_list] at h
  rcases exists_of_map_eq_ok h with ⟨xs, hxs, hlist⟩
  exact ⟨xs, hlist.symm, hasValues_of_evalAll hxs⟩

theorem no_list_of_hasValues {xs : List Fact} (hxs : List.Forall₂ (HasValue facts) es xs)
    (hes : ∀ e ∈ es, ∀ items, ¬ HasValue facts e (.list items)) :
    ∀ x ∈ xs, ∀ items, x ≠ .list items := by
  induction hxs with
  | nil => exact fun x hx => nomatch hx
  | cons hx hrest ih =>
      rcases List.forall_mem_cons.mp hes with ⟨he, hes⟩
      refine List.forall_mem_cons.mpr ⟨?_, ih hes⟩
      intro items hlist
      rw [hlist] at hx
      exact he items hx

theorem exists_mem_of_hasValues {xs : List Fact} {e : Expr} {x : Fact}
    (hxs : List.Forall₂ (HasValue facts) es xs) (he : e ∈ es) (hx : HasValue facts e x) :
    x ∈ xs := by
  induction hxs with
  | nil => cases he
  | cons hfirst hrest ih =>
      rcases List.mem_cons.mp he with rfl | hmem
      · rw [hx.unique hfirst]
        exact List.mem_cons_self
      · exact List.mem_cons_of_mem _ (ih hmem)

/-!
# Calls with two arguments
-/

theorem evalAt_pair {op : Op} (hreads : op.reads = .first 2) (room : Nat) (a b : Expr) :
    evalAt facts limit (room + 1) (.call op [a, b]) =
      evalAt facts limit room a >>= fun x =>
        evalAt facts limit room b >>= fun y =>
          .ok (op.apply (Op.ne_lazy_of_first hreads) [x, y]) := by
  rw [evalAt_first facts limit room hreads]
  unfold evalFirst evalFirst evalFirst
  cases evalAt facts limit room a with
  | error fault => rfl
  | ok x => cases evalAt facts limit room b <;> rfl

theorem exists_of_hasValue_pair {op : Op} (hreads : op.reads = .first 2) {a b : Expr}
    {value : Fact} (h : HasValue facts (.call op [a, b]) value) :
    ∃ x y, HasValue facts a x ∧ HasValue facts b y ∧
      value = op.apply (Op.ne_lazy_of_first hreads) [x, y] := by
  rcases h with ⟨limit, h⟩
  rcases exists_left_of_evalAt h with ⟨left, hleft⟩
  unfold eval at h
  rw [hleft, evalAt_pair hreads] at h
  rcases exists_of_bind_eq_ok h with ⟨x, hx, h⟩
  rcases exists_of_bind_eq_ok h with ⟨y, hy, h⟩
  exact ⟨x, y, hasValue_of_evalAt hx, hasValue_of_evalAt hy, (Except.ok.inj h).symm⟩

end Expr
end Reckoner
