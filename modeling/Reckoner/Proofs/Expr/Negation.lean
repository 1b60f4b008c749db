import Reckoner.Proofs.Expr.Threshold

/-!
# Negation of junctions

A conjunction looks for a false argument and a disjunction for a true one, and each
stops where the search ends.  Negating all arguments turns one search into the other:
they look at the same arguments, each at the same depth, so they also fail alike.
-/

namespace Reckoner

namespace Expr

/-!
# Searches
-/

/-- The search for an expression of a truth value looks at the first few of a list and ends with an
outcome: none of them has it, the last one has it, or the last one has no value at all. -/
inductive Search (facts : Json) (limit room : Nat) (wanted : Bool) :
    List Expr -> Nat -> Except EvalError Bool -> Prop where
  | exhausted : Search facts limit room wanted [] 0 (.ok false)
  | found {e : Expr} {x : Fact} (rest : List Expr) :
      evalAt facts limit room e = .ok x ->
        x.truthy = wanted ->
        Search facts limit room wanted (e :: rest) 1 (.ok true)
  | failed {e : Expr} {fault : EvalError} (rest : List Expr) :
      evalAt facts limit room e = .error fault ->
        Search facts limit room wanted (e :: rest) 1 (.error fault)
  | passed {e : Expr} {x : Fact} {rest : List Expr} {seen : Nat}
      {outcome : Except EvalError Bool} :
      evalAt facts limit room e = .ok x ->
        x.truthy ≠ wanted ->
        Search facts limit room wanted rest seen outcome ->
        Search facts limit room wanted (e :: rest) (seen + 1) outcome

section Searches

variable {facts : Json} {limit room : Nat} {wanted : Bool}

theorem exists_search (es : List Expr) :
    ∃ seen, Search facts limit room wanted es seen (evalSome facts limit room wanted es) := by
  induction es with
  | nil =>
      unfold evalSome
      exact ⟨0, .exhausted⟩
  | cons e rest ih =>
      unfold evalSome
      cases hx : evalAt facts limit room e with
      | error fault => exact ⟨1, .failed rest hx⟩
      | ok x =>
          change ∃ seen, Search facts limit room wanted (e :: rest) seen
            (if x.truthy = wanted then .ok true else evalSome facts limit room wanted rest)
          split
          · rename_i hfound
            exact ⟨1, .found rest hx hfound⟩
          · rename_i hother
            rcases ih with ⟨seen, hsearch⟩
            exact ⟨seen + 1, .passed hx hother hsearch⟩

theorem Search.evalSome_eq {es : List Expr} {seen : Nat} {outcome : Except EvalError Bool}
    (h : Search facts limit room wanted es seen outcome) :
    evalSome facts limit room wanted es = outcome := by
  induction h with
  | exhausted =>
      unfold evalSome
      rfl
  | found rest hx hfound =>
      unfold evalSome
      rw [hx]
      exact if_pos hfound
  | failed rest hfault =>
      unfold evalSome
      rw [hfault]
      rfl
  | passed hx hother hsearch ih =>
      unfold evalSome
      rw [hx, ← ih]
      exact if_neg hother

theorem Search.eq_tooDeep {es : List Expr} {seen : Nat} {fault : EvalError}
    (h : Search facts limit room wanted es seen (.error fault)) : fault = .tooDeep limit := by
  generalize houtcome : Except.error fault = outcome at h
  induction h with
  | exhausted => cases houtcome
  | found rest hx hfound => cases houtcome
  | failed rest hfault =>
      cases houtcome
      exact eq_tooDeep_of_evalAt hfault
  | passed hx hother hsearch ih => exact ih houtcome

/-!
# Searches among negated expressions
-/

def negation (e : Expr) : Expr :=
  .call .not [e]

theorem evalAt_negation (e : Expr) :
    evalAt facts limit (room + 1) e.negation =
      (evalAt facts limit room e).map fun x => .bool (!x.truthy) := by
  unfold negation
  rw [evalAt_first facts limit room rfl]
  unfold evalFirst evalFirst
  cases evalAt facts limit room e with
  | error fault => rfl
  | ok x => rfl

/-- Whoever looks for the opposite among the negations, one level further up, looks at the
negations of the same expressions. -/
theorem Search.negated {es : List Expr} {seen : Nat} {outcome : Except EvalError Bool}
    (h : Search facts limit room wanted es seen outcome) :
    Search facts limit (room + 1) (!wanted) (es.map negation) seen outcome := by
  have hnegation {e : Expr} {x : Fact} (hx : evalAt facts limit room e = .ok x) :
      evalAt facts limit (room + 1) e.negation = .ok (.bool (!x.truthy)) := by
    rw [evalAt_negation, hx]
    rfl
  induction h with
  | exhausted => exact .exhausted
  | found rest hx hfound => exact .found _ (hnegation hx) (congrArg Bool.not hfound)
  | failed rest hfault =>
      apply Search.failed
      rw [evalAt_negation, hfault]
      rfl
  | passed hx hother hsearch ih =>
      refine .passed (hnegation hx) ?_ ih
      intro hsame
      exact hother (Bool.not_inj hsame)

/-!
# Junctions
-/

/-- The operator that looks for a truth value among its arguments. -/
def junction (wanted : Bool) : Op :=
  if wanted then .or else .and

theorem evalAt_junction (es : List Expr) :
    evalAt facts limit (room + 1) (.call (junction wanted) es) =
      (evalSome facts limit room wanted es).map fun found => .bool (found == wanted) := by
  cases wanted with
  | false =>
      have hanswer : (fun found => Fact.bool (found == false)) = fun found => .bool (!found) := by
        funext found
        cases found <;> rfl
      rw [hanswer]
      exact evalAt_and facts limit room es
  | true =>
      have hanswer : (fun found => Fact.bool (found == true)) = .bool := by
        funext found
        cases found <;> rfl
      rw [hanswer]
      exact evalAt_or facts limit room es

/-- The negation of a junction, and the other junction of the negations. -/
theorem evalAt_junctions {es : List Expr} {seen : Nat} {outcome : Except EvalError Bool}
    (h : Search facts limit room wanted es seen outcome) :
    evalAt facts limit (room + 2) (Expr.call (junction wanted) es).negation =
        outcome.map (fun found => .bool (found != wanted)) ∧
      evalAt facts limit (room + 2) (.call (junction (!wanted)) (es.map negation)) =
        outcome.map fun found => .bool (found != wanted) := by
  constructor
  · rw [evalAt_negation, evalAt_junction, h.evalSome_eq]
    cases outcome with
    | error fault => rfl
    | ok found => rfl
  · rw [evalAt_junction, h.negated.evalSome_eq]
    congr 1
    funext found
    cases found <;> cases wanted <;> rfl

end Searches

/-- The negation of a conjunction is the disjunction of the negations and the other way round.
Both end with the same truth value or for lack of room, and both look at the same arguments. -/
theorem eval_de_morgan {limit : Nat} (hlimit : 2 ≤ limit) (facts : Json) (xs : List Expr) :
    (Expr.call .not [.call .and xs]).eval limit facts =
        (Expr.call .or (xs.map fun x => .call .not [x])).eval limit facts ∧
      (Expr.call .not [.call .or xs]).eval limit facts =
        (Expr.call .and (xs.map fun x => .call .not [x])).eval limit facts ∧
      ∀ wanted, ∃ seen outcome,
        Search facts limit (limit - 2) wanted xs seen outcome ∧
          Search facts limit (limit - 1) (!wanted) (xs.map fun x => .call .not [x]) seen outcome ∧
          (Expr.call .not [.call (junction wanted) xs]).eval limit facts =
            outcome.map (fun found => .bool (found != wanted)) ∧
          ((∃ found, outcome = .ok found) ∨ outcome = .error (.tooDeep limit)) := by
  rcases Nat.exists_eq_add_of_le' hlimit with ⟨room, rfl⟩
  have hsame (wanted : Bool) : ∃ seen outcome,
      Search facts (room + 2) room wanted xs seen outcome ∧
        (Expr.call .not [.call (junction wanted) xs]).eval (room + 2) facts =
          outcome.map (fun found => .bool (found != wanted)) ∧
        (Expr.call (junction (!wanted)) (xs.map negation)).eval (room + 2) facts =
          outcome.map fun found => .bool (found != wanted) := by
    rcases exists_search xs with ⟨seen, hsearch⟩
    exact ⟨seen, _, hsearch, evalAt_junctions hsearch⟩
  refine ⟨?_, ?_, ?_⟩
  · rcases hsame false with ⟨_, _, _, hnegated, hnegations⟩
    exact hnegated.trans hnegations.symm
  · rcases hsame true with ⟨_, _, _, hnegated, hnegations⟩
    exact hnegated.trans hnegations.symm
  · intro wanted
    rcases hsame wanted with ⟨seen, outcome, hsearch, hnegated, _⟩
    refine ⟨seen, outcome, hsearch, hsearch.negated, hnegated, ?_⟩
    cases outcome with
    | ok found => exact .inl ⟨found, rfl⟩
    | error fault => exact .inr (congrArg Except.error hsearch.eq_tooDeep)

/-- An argument that is nested too deep is skipped by both forms behind one that settles the answer,
and it is the failure of both before that one. -/
theorem eval_de_morgan_nested :
    let facts : Json := .obj []
    let deep : Expr := .call .not [.var "a"]
    let behind : List Expr := [.bool true, .number 0.0, deep]
    let before : List Expr := [.bool true, deep, .number 0.0]
    2 ≤ 3 ∧
      (Expr.call .not [.call .and behind]).eval 3 facts = .ok (.bool true) ∧
      (Expr.call .or (behind.map fun x => .call .not [x])).eval 3 facts = .ok (.bool true) ∧
      (Expr.call .not [.call .and before]).eval 3 facts = .error (.tooDeep 3) ∧
      (Expr.call .or (before.map fun x => .call .not [x])).eval 3 facts = .error (.tooDeep 3) := by
  intro facts deep behind before
  have hlimit : 2 ≤ 3 := by decide
  have hbehind : (Expr.call .not [.call .and behind]).eval 3 facts = .ok (.bool true) := rfl
  have hbefore : (Expr.call .not [.call .and before]).eval 3 facts = .error (.tooDeep 3) := rfl
  refine ⟨hlimit, hbehind, ?_, hbefore, ?_⟩
  · rw [← (eval_de_morgan hlimit facts behind).1]
    exact hbehind
  · rw [← (eval_de_morgan hlimit facts before).1]
    exact hbefore

end Expr
end Reckoner
