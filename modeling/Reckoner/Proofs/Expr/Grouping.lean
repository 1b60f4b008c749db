import Reckoner.Proofs.Expr.Arguments
import Reckoner.Proofs.Expr.Extrema

/-!
# Arguments in groups

Sums and extrema take the items of a list for arguments of their own.  So it makes no
difference whether arguments stand bare or some of them side by side in a list, since
what counts is the sequence of all their numbers.  This holds of one level of lists
only: a list inside a list is an item like any other, and its number is none.
-/

namespace Reckoner

namespace Op

/-!
# Numbers gathered from arguments
-/

/-- An operator that gathers the numbers of its arguments, and what it makes of them. -/
inductive Gathers : Op -> (List Float -> Float) -> Prop where
  | sum : Gathers .sum sumOf
  | min : Gathers .min leastOf
  | max : Gathers .max greatestOf

variable {op : Op} {f : List Float -> Float}

theorem Gathers.reads_eq (h : Gathers op f) : op.reads = .all := by
  cases h <;> rfl

theorem Gathers.apply_eq (h : Gathers op f) (isStrict : op.reads ≠ .lazy) (xs : List Fact) :
    op.apply isStrict xs = .num (f (flatNumbers xs)) := by
  cases h <;> rfl

theorem Gathers.isNaN_of_mem (h : Gathers op f) {ns : List Float} {n : Float} (hn : n ∈ ns)
    (hnan : n.isNaN = true) : (f ns).isNaN = true := by
  cases h with
  | sum => exact Number.isNaN_foldl_add (.inr ⟨n, hn, hnan⟩)
  | min => exact ranks_least.isNaN_bestOf_iff.mpr (.inr ⟨n, hn, hnan⟩)
  | max => exact ranks_greatest.isNaN_bestOf_iff.mpr (.inr ⟨n, hn, hnan⟩)

theorem flatNumbers_append (xs ys : List Fact) :
    flatNumbers (xs ++ ys) = flatNumbers xs ++ flatNumbers ys :=
  List.flatMap_append

theorem flatNumbers_list (items : List Fact) :
    flatNumbers [.list items] = items.map Fact.number :=
  List.append_nil _

/-- A list inside a list contributes one number, which is none. -/
theorem flatNumbers_inner (before items inner more after : List Fact) :
    flatNumbers (before ++ .list (items ++ .list inner :: more) :: after) =
      flatNumbers before ++ (items.map Fact.number ++ Fact.nan :: more.map Fact.number) ++
        flatNumbers after := by
  rw [List.append_cons, flatNumbers_append, flatNumbers_append, flatNumbers_list, List.map_append]
  rfl

theorem flatNumbers_of_no_list {xs : List Fact} (h : ∀ x ∈ xs, ∀ items, x ≠ .list items) :
    flatNumbers xs = xs.map Fact.number := by
  induction xs with
  | nil => rfl
  | cons x rest ih =>
      rcases List.forall_mem_cons.mp h with ⟨hx, hrest⟩
      have hone : flatNumbers [x] = [x.number] := by
        cases x with
        | list items => exact absurd rfl (hx items)
        | _ => rfl
      rw [List.map_cons, ← List.singleton_append, flatNumbers_append, hone, ih hrest]
      rfl

end Op

namespace Expr

variable {facts : Json} {limit : Nat} {args es : List Expr}

/-!
# Calls that gather numbers
-/

variable {op : Op} {f : List Float -> Float} {xs : List Fact}

theorem eval_gathered_unique (hop : Op.Gathers op f) (hxs : List.Forall₂ (HasValue facts) es xs)
    {value : Fact} (h : (Expr.call op es).eval limit facts = .ok value) :
    value = .num (f (Op.flatNumbers xs)) := by
  rcases exists_left_of_evalAt h with ⟨left, hleft⟩
  unfold eval at h
  rw [hleft, evalAt_all _ _ _ hop.reads_eq] at h
  rcases exists_of_map_eq_ok h with ⟨ys, hys, hvalue⟩
  rw [← hvalue, hop.apply_eq, hasValues_unique hxs (hasValues_of_evalAll hys)]

theorem eval_gathered (hop : Op.Gathers op f) (hxs : List.Forall₂ (HasValue facts) es xs)
    (hlimit : (Expr.call op es).nesting < limit) :
    (Expr.call op es).eval limit facts = .ok (.num (f (Op.flatNumbers xs))) := by
  rcases exists_value (.call op es) facts with ⟨value, hvalue, _⟩
  rw [hvalue limit hlimit, eval_gathered_unique hop hxs (hvalue limit hlimit)]

/-- What adding up and summing up make of arguments that are no lists. -/
theorem eval_sum_eq_add (hes : ∀ e ∈ es, ∀ items, ¬ HasValue facts e (.list items)) :
    (Expr.call .sum es).eval limit facts = (Expr.call .add es).eval limit facts := by
  unfold eval
  cases limit with
  | zero => rw [evalAt_zero, evalAt_zero]
  | succ room =>
      rw [evalAt_all _ _ _ rfl, evalAt_all _ _ _ rfl]
      cases hxs : evalAll facts (room + 1) room es with
      | error fault => rfl
      | ok xs =>
          have hflat := Op.flatNumbers_of_no_list
            (no_list_of_hasValues (hasValues_of_evalAll hxs) hes)
          exact congrArg (fun ns => Except.ok (Fact.num (Op.sumOf ns))) hflat

theorem isNaN_of_inner_list (hop : Op.Gathers op f) {e : Expr} {items inner : List Fact}
    (he : e ∈ es) (hitems : HasValue facts e (.list items)) (hinner : .list inner ∈ items)
    {value : Fact} (h : (Expr.call op es).eval limit facts = .ok value) :
    ∃ n, value = .num n ∧ n.isNaN = true := by
  rcases exists_values facts es with ⟨xs, hxs⟩
  refine ⟨_, eval_gathered_unique hop hxs h, ?_⟩
  rcases List.append_of_mem (exists_mem_of_hasValues hxs he hitems) with ⟨before, after, rfl⟩
  rcases List.append_of_mem hinner with ⟨first, more, rfl⟩
  rw [Op.flatNumbers_inner]
  apply hop.isNaN_of_mem (n := Fact.nan)
  · apply List.mem_append_left
    apply List.mem_append_right
    exact List.mem_append_right _ List.mem_cons_self
  · rfl

/-!
# Groups
-/

/-- Arguments in which list literals may stand for some of a sequence that are side by side, and the
sequence. -/
inductive Groups : List Expr -> List Expr -> Prop where
  | nil : Groups [] []
  | bare {args es : List Expr} (e : Expr) :
      Groups args es ->
        Groups (e :: args) (e :: es)
  | group {args es : List Expr} (items : List Expr) :
      Groups args es ->
        Groups (.list items :: args) (items ++ es)

theorem nestingOf_append_le {n : Nat} {fs : List Expr} (hes : nestingOf es ≤ n)
    (hfs : nestingOf fs ≤ n) : nestingOf (es ++ fs) ≤ n := by
  induction es with
  | nil => exact hfs
  | cons e rest ih =>
      rcases Nat.max_le.mp hes with ⟨he, hrest⟩
      exact Nat.max_le.mpr ⟨he, ih hrest⟩

theorem Groups.nestingOf_le (h : Groups args es) : nestingOf es ≤ nestingOf args := by
  induction h with
  | nil => exact Nat.le_refl 0
  | bare e h ih => exact max_le_max_left (e.nesting + 1) ih
  | group items h ih =>
      apply nestingOf_append_le
      · exact Nat.le_trans (Nat.le_succ _) (Nat.le_max_left _ _)
      · exact Nat.le_trans ih (Nat.le_max_right _ _)

/-- The numbers of arguments in groups are those of the sequence. -/
theorem Groups.flatNumbers_eq (h : Groups args es) {values : List Fact}
    (hes : ∀ e ∈ es, ∀ items, ¬ HasValue facts e (.list items))
    (hvalues : List.Forall₂ (HasValue facts) args values) :
    ∃ xs, List.Forall₂ (HasValue facts) es xs ∧
      Op.flatNumbers values = Op.flatNumbers xs := by
  induction h generalizing values with
  | nil =>
      cases hvalues
      exact ⟨[], .nil, rfl⟩
  | bare e h ih =>
      cases hvalues with
      | cons hx hrest =>
          rename_i x rest
          rcases ih (List.forall_mem_cons.mp hes).2 hrest with ⟨xs, hxs, hflat⟩
          refine ⟨x :: xs, .cons hx hxs, ?_⟩
          rw [← List.singleton_append, Op.flatNumbers_append, hflat, ← Op.flatNumbers_append]
          rfl
  | group items h ih =>
      cases hvalues with
      | cons hx hrest =>
          rename_i x rest
          rcases List.forall_mem_append.mp hes with ⟨hitems, hes⟩
          rcases exists_of_hasValue_list hx with ⟨members, rfl, hmembers⟩
          rcases ih hes hrest with ⟨xs, hxs, hflat⟩
          refine ⟨members ++ xs, List.rel_append hmembers hxs, ?_⟩
          rw [← List.singleton_append, Op.flatNumbers_append, hflat, Op.flatNumbers_append,
            Op.flatNumbers_list, Op.flatNumbers_of_no_list (no_list_of_hasValues hmembers hitems)]

/-- Sums and extrema are computed from the numbers of a sequence of expressions, whether these are
given as they are or in groups, and a sum is what adding the numbers makes too.  An argument whose
value is a list counts for the numbers of its items, of which a list is none. -/
theorem eval_grouped (hgroups : Groups args es)
    (hes : ∀ e ∈ es, ∀ items, ¬ HasValue facts e (.list items)) :
    (∃ xs, List.Forall₂ (HasValue facts) es xs ∧ ∀ op f, Op.Gathers op f ->
      (∀ limit, (Expr.call op args).nesting < limit ->
        (Expr.call op args).eval limit facts = .ok (.num (f (xs.map Fact.number))) ∧
          (Expr.call op es).eval limit facts = .ok (.num (f (xs.map Fact.number)))) ∧
      ∀ limit value, (Expr.call op args).eval limit facts = .ok value ∨
        (Expr.call op es).eval limit facts = .ok value ->
          value = .num (f (xs.map Fact.number))) ∧
      (∀ limit, (Expr.call .sum es).eval limit facts = (Expr.call .add es).eval limit facts) ∧
      (∀ op f others values, Op.Gathers op f -> List.Forall₂ (HasValue facts) others values ->
        ∀ limit, (Expr.call op others).nesting < limit ->
          (Expr.call op others).eval limit facts = .ok (.num (f (Op.flatNumbers values)))) ∧
      (∀ before items inner more after,
        Op.flatNumbers (before ++ .list (items ++ .list inner :: more) :: after) =
          Op.flatNumbers before ++ (items.map Fact.number ++ Fact.nan :: more.map Fact.number) ++
            Op.flatNumbers after) ∧
      ∀ op f others e items inner, Op.Gathers op f -> e ∈ others ->
        HasValue facts e (.list items) -> .list inner ∈ items ->
        ∀ limit value, (Expr.call op others).eval limit facts = .ok value ->
          ∃ n, value = .num n ∧ n.isNaN = true := by
  refine ⟨?_, ?_, ?_, Op.flatNumbers_inner, ?_⟩
  · rcases exists_values facts args with ⟨values, hvalues⟩
    rcases hgroups.flatNumbers_eq hes hvalues with ⟨xs, hxs, hsame⟩
    have hflat := Op.flatNumbers_of_no_list (no_list_of_hasValues hxs hes)
    rw [hflat] at hsame
    refine ⟨xs, hxs, ?_⟩
    intro op f hop
    rw [← hsame]
    constructor
    · intro limit hlimit
      have hlimit' := Nat.lt_of_le_of_lt hgroups.nestingOf_le hlimit
      have hbare := eval_gathered hop hxs hlimit'
      rw [hflat, ← hsame] at hbare
      exact ⟨eval_gathered hop hvalues hlimit, hbare⟩
    · intro limit value h
      rcases h with hgrouped | hbare
      · exact eval_gathered_unique hop hvalues hgrouped
      · rw [eval_gathered_unique hop hxs hbare, hflat, ← hsame]
  · intro limit
    exact eval_sum_eq_add hes
  · intro op f others values hop hvalues limit hlimit
    exact eval_gathered hop hvalues hlimit
  · intro op f others e items inner hop he hitems hinner limit value h
    exact isNaN_of_inner_list hop he hitems hinner h

/-- Two groups, one of which is empty, with a text that spells a number, and a list inside a list
that stands under a name. -/
theorem eval_grouped_nested :
    let facts : Json := .obj [("xs", .arr [.num (.int 4), .arr [.num (.int 2)]])]
    let es : List Expr := [.number 0.1, .text " 0.2 ", .number 0.3]
    let args : List Expr := [.list [], .number 0.1, .list [.text " 0.2 ", .number 0.3]]
    Groups args es ∧ (∀ e ∈ es, ∀ items, ¬ HasValue facts e (.list items)) ∧
      (Expr.call .add es).eval 3 facts = .ok (.num 0.6000000000000001) ∧
      (Expr.call .sum args).eval 3 facts = .ok (.num 0.6000000000000001) ∧
      ∃ n, (Expr.call .max [.var "xs"]).eval 3 facts = .ok (.num n) ∧ n.isNaN = true := by
  intro facts es args
  have hgroups : Groups args es := .group [] (.bare (.number 0.1) (.group _ .nil))
  have hes : ∀ e ∈ es, ∀ items, ¬ HasValue facts e (.list items) := by
    intro e he items hlist
    have hscalar : ∃ literal, e = .literal literal := by
      rcases List.mem_cons.mp he with rfl | hrest
      · exact ⟨_, rfl⟩
      · rcases List.mem_pair.mp hrest with rfl | rfl
        · exact ⟨_, rfl⟩
        · exact ⟨_, rfl⟩
    rcases hscalar with ⟨literal, rfl⟩
    have hvalue : HasValue facts (.literal literal) literal.fact := ⟨1, rfl⟩
    cases literal <;> cases hlist.unique hvalue
  have hnumbers : Op.sumOf [0.1, (Fact.str " 0.2 ").number, 0.3] = 0.6000000000000001 := by
    decide +kernel
  have hadd : (Expr.call .add es).eval 3 facts = .ok (.num 0.6000000000000001) :=
    congrArg (fun n => Except.ok (Fact.num n)) hnumbers
  have hxs : HasValue facts (.var "xs") (.list [.num 4.0, .list [.num 2.0]]) := ⟨1, rfl⟩
  have hmax : ∃ n, (Expr.call .max [.var "xs"]).eval 3 facts = .ok (.num n) := ⟨_, rfl⟩
  rcases eval_grouped hgroups hes with ⟨⟨xs, _, hsame⟩, hsum, _, _, hinner⟩
  refine ⟨hgroups, hes, hadd, ?_, ?_⟩
  · rcases hsame .sum Op.sumOf .sum with ⟨hlarge, honly⟩
    rw [(hlarge 3 (by decide)).1, ← (hlarge 3 (by decide)).2, hsum 3]
    exact hadd
  · rcases hmax with ⟨n, hmax⟩
    rcases hinner .max Op.greatestOf _ _ _ [.num 2.0] .max List.mem_cons_self hxs
      (List.mem_cons_of_mem _ List.mem_cons_self) 3 _ hmax with ⟨m, hm, hnan⟩
    rw [hm] at hmax
    exact ⟨m, hmax, hnan⟩

end Expr
end Reckoner
