import Reckoner.Proofs.Expr.Threshold
import Reckoner.Proofs.Expr.Paths
import Reckoner.Proofs.Fact.Lookup

/-!
# Facts that are computed beforehand

An expression may read a fact under a name, where another expression could stand that
computes the fact.  Putting that expression in the place of the name gives the same
value, provided the fact is shown in full by the value that is kept under the name, and no
other path of the expression leads through the name.  Only the number of levels that an
evaluation needs may be another one.
-/

namespace Reckoner

namespace Expr

/-!
# Substitution
-/

mutual

def substitute (name : String) (s : Expr) : Expr -> Expr
  | .literal value => .literal value
  | .list items => .list (substituteItems name s items)
  | .var path => if path = name then s else .var path
  | .call op args => .call op (substituteItems name s args)

def substituteItems (name : String) (s : Expr) : List Expr -> List Expr
  | [] => []
  | e :: rest => substitute name s e :: substituteItems name s rest

end

theorem below_of_nestingOf_cons {e : Expr} {es : List Expr} {enough room : Nat}
    (h : enough + nestingOf (e :: es) ≤ room) :
    enough + e.nesting < room ∧ enough + nestingOf es ≤ room := by
  change enough + max (e.nesting + 1) (nestingOf es) ≤ room at h
  omega

/-!
# Evaluating in two contexts

In one context the fact stands under the name, and in the other the expression computes it if
there is room for enough levels.  The room that an expression is given is counted from there,
so that enough is left wherever the name is read in it.
-/

/-- With room for enough levels, an expression has a value, whatever the room. -/
def SettledFrom (facts : Json) (limit enough : Nat) (s : Expr) (value : Fact) : Prop :=
  ∀ room, enough ≤ room -> evalAt facts limit room s = .ok value

theorem settledFrom_of_eval {facts : Json} {s : Expr} {value : Fact} {limit enough : Nat}
    (hs : s.eval enough facts = .ok value) (hlimit : enough ≤ limit) :
    SettledFrom facts limit enough s value := by
  intro room hroom
  have hwider : Level.limiting.wider ⟨⟨enough, 0⟩, enough⟩ ⟨⟨limit, 0⟩, room⟩ :=
    ⟨⟨hlimit, Nat.le_refl 0⟩, hroom⟩
  exact (evalAt_steady facts s).keeps _ _ value hwider hs

section Contexts

variable {f g : Json} {name : String} {s : Expr} {limit enough : Nat}

mutual

theorem evalAt_substitute (hs : SettledFrom g limit enough s (f.lookup name)) :
    ∀ (e : Expr) {room : Nat}, (∀ p ∈ e.paths, p ≠ name -> g.lookup p = f.lookup p) ->
      enough + e.nesting < room ->
      evalAt g limit room (substitute name s e) = evalAt f limit room e
  | e, 0, _, hroom => absurd hroom (Nat.not_lt_zero (enough + e.nesting))
  | .literal value, room + 1, _, _ => by
      unfold substitute
      rw [evalAt_literal, evalAt_literal]
  | .list items, room + 1, hpaths, hroom => by
      unfold substitute
      rw [evalAt_list, evalAt_list,
        evalAll_substitute hs items hpaths (Nat.le_of_lt_succ hroom)]
  | .var path, room + 1, hpaths, hroom => by
      unfold substitute
      rw [evalAt_var]
      split
      · rename_i hread
        rw [hread]
        exact hs (room + 1) (Nat.le_of_lt hroom)
      · rename_i hother
        rw [evalAt_var, hpaths path (List.mem_singleton_self path) hother]
  | .call op args, room + 1, hpaths, hroom => by
      have hargs : enough + nestingOf args ≤ room := Nat.le_of_lt_succ hroom
      unfold substitute
      rcases op.reads_cases with ⟨count, hfirst⟩ | hall | hand | hor | hcond
      · rw [evalAt_first g limit room hfirst, evalAt_first f limit room hfirst,
          evalFirst_substitute hs count args hpaths hargs]
      · rw [evalAt_all g limit room hall, evalAt_all f limit room hall,
          evalAll_substitute hs args hpaths hargs]
      · rw [hand, evalAt_and, evalAt_and, evalSome_substitute hs false args hpaths hargs]
      · rw [hor, evalAt_or, evalAt_or, evalSome_substitute hs true args hpaths hargs]
      · rw [hcond]
        cases args with
        | nil =>
            unfold substituteItems
            rw [evalAt_cond_nil, evalAt_cond_nil]
        | cons test branches =>
            rcases below_of_nestingOf_cons hargs with ⟨htest, hbranches⟩
            have hsame := evalAt_substitute hs test
              (fun p hp => hpaths p (List.mem_append_left _ hp)) htest
            unfold substituteItems
            rw [evalAt_cond_cons, evalAt_cond_cons, hsame]
            congr 1
            funext x
            exact evalBranch_substitute hs branches (if x.truthy then 0 else 1)
              (fun p hp => hpaths p (List.mem_append_right _ hp)) hbranches

theorem evalAll_substitute (hs : SettledFrom g limit enough s (f.lookup name)) :
    ∀ (es : List Expr) {room : Nat},
      (∀ p ∈ pathsOfItems es, p ≠ name -> g.lookup p = f.lookup p) ->
      enough + nestingOf es ≤ room ->
      evalAll g limit room (substituteItems name s es) = evalAll f limit room es
  | [], _, _, _ => by
      unfold substituteItems evalAll
      rfl
  | e :: es, _, hpaths, hroom => by
      rcases below_of_nestingOf_cons hroom with ⟨hhead, hrest⟩
      unfold substituteItems evalAll
      rw [evalAt_substitute hs e (fun p hp => hpaths p (List.mem_append_left _ hp)) hhead,
        evalAll_substitute hs es (fun p hp => hpaths p (List.mem_append_right _ hp)) hrest]

theorem evalFirst_substitute (hs : SettledFrom g limit enough s (f.lookup name)) :
    ∀ (count : Nat) (es : List Expr) {room : Nat},
      (∀ p ∈ pathsOfItems es, p ≠ name -> g.lookup p = f.lookup p) ->
      enough + nestingOf es ≤ room ->
      evalFirst g limit room count (substituteItems name s es) = evalFirst f limit room count es
  | _, [], _, _, _ => by
      unfold substituteItems evalFirst
      rfl
  | 0, _ :: _, _, _, _ => by
      unfold substituteItems evalFirst
      rfl
  | count + 1, e :: es, _, hpaths, hroom => by
      rcases below_of_nestingOf_cons hroom with ⟨hhead, hrest⟩
      unfold substituteItems evalFirst
      dsimp only
      rw [evalAt_substitute hs e (fun p hp => hpaths p (List.mem_append_left _ hp)) hhead,
        evalFirst_substitute hs count es (fun p hp => hpaths p (List.mem_append_right _ hp)) hrest]

theorem evalSome_substitute (hs : SettledFrom g limit enough s (f.lookup name)) :
    ∀ (wanted : Bool) (es : List Expr) {room : Nat},
      (∀ p ∈ pathsOfItems es, p ≠ name -> g.lookup p = f.lookup p) ->
      enough + nestingOf es ≤ room ->
      evalSome g limit room wanted (substituteItems name s es) = evalSome f limit room wanted es
  | _, [], _, _, _ => by
      unfold substituteItems evalSome
      rfl
  | wanted, e :: es, _, hpaths, hroom => by
      rcases below_of_nestingOf_cons hroom with ⟨hhead, hrest⟩
      unfold substituteItems evalSome
      rw [evalAt_substitute hs e (fun p hp => hpaths p (List.mem_append_left _ hp)) hhead,
        evalSome_substitute hs wanted es (fun p hp => hpaths p (List.mem_append_right _ hp)) hrest]

theorem evalBranch_substitute (hs : SettledFrom g limit enough s (f.lookup name)) :
    ∀ (es : List Expr) (i : Nat) {room : Nat},
      (∀ p ∈ pathsOfItems es, p ≠ name -> g.lookup p = f.lookup p) ->
      enough + nestingOf es ≤ room ->
      evalBranch g limit room (substituteItems name s es) i = evalBranch f limit room es i
  | [], _, _, _, _ => by
      unfold substituteItems evalBranch
      rfl
  | e :: _, 0, _, hpaths, hroom => by
      unfold substituteItems evalBranch
      exact evalAt_substitute hs e (fun p hp => hpaths p (List.mem_append_left _ hp))
        (below_of_nestingOf_cons hroom).1
  | _ :: es, i + 1, _, hpaths, hroom => by
      unfold substituteItems evalBranch
      exact evalBranch_substitute hs es i (fun p hp => hpaths p (List.mem_append_right _ hp))
        (below_of_nestingOf_cons hroom).2

end

end Contexts

/-!
# One more fact
-/

/-- Over facts with one more, which an expression computes from the others, there is the value that
there is without it if the expression stands where the name of the fact is read. -/
theorem eval_substitute {facts : Table Json} {name : String} {e s : Expr} {w : Fact}
    {enough : Nat} (hname : name ≠ "") (hpoint : '.' ∉ name.toList)
    (hpaths : ∀ path ∈ e.paths,
      path ≠ "" ∧ (path = name ∨ (Path.segments path).head? ≠ some name))
    (hs : s.eval enough (.obj facts) = .ok w) (hw : w.ShownInFull) :
    ∃ value,
      (∀ limit, e.nesting < limit -> e.eval limit (.obj (facts.insert name w.toJson)) = .ok value) ∧
      (∀ limit, (substitute name s e).nesting < limit ->
        (substitute name s e).eval limit (.obj facts) = .ok value) ∧
      (∀ limit other,
        e.eval limit (.obj (facts.insert name w.toJson)) = .ok other -> other = value) ∧
      ∀ limit other,
        (substitute name s e).eval limit (.obj facts) = .ok other -> other = value := by
  have hread : (Json.obj (facts.insert name w.toJson)).lookup name = w := by
    rw [Json.lookup_insert_self hname hpoint, hw.ofJson_toJson_eq]
  have hothers : ∀ p ∈ e.paths, p ≠ name ->
      (Json.obj facts).lookup p = (Json.obj (facts.insert name w.toJson)).lookup p := by
    intro p hp hother
    rcases hpaths p hp with ⟨hne, hfirst⟩
    exact (Json.lookup_insert_of_ne hne (hfirst.resolve_left hother) facts w.toJson).symm
  rcases exists_value e (.obj (facts.insert name w.toJson)) with ⟨value, hvalue, honly⟩
  rcases exists_value (substitute name s e) (.obj facts) with ⟨value', hvalue', honly'⟩
  have hsame : (substitute name s e).eval (enough + e.nesting + 1) (.obj facts) =
      e.eval (enough + e.nesting + 1) (.obj (facts.insert name w.toJson)) := by
    apply evalAt_substitute _ e hothers (Nat.lt_succ_self _)
    rw [hread]
    exact settledFrom_of_eval hs (by omega)
  have hequal : value = value' := by
    rw [hvalue _ (by omega)] at hsame
    exact honly' _ value hsame
  rw [← hequal] at hvalue' honly'
  exact ⟨value, hvalue, hvalue', honly, honly'⟩

/-- A sum that is computed from the entry it replaces, read twice beside a path through another
name. Written out it needs one level more, and none in a branch that is not taken. -/
theorem eval_substitute_sum :
    let facts : Table Json := [("a", .obj [("k", .num (.double 1.5))]), ("k", .num (.int 2))]
    let s : Expr := .call .add [.var "k", .var "a.k"]
    let e : Expr := .call .cond [.call .gt [.var "k", .var "a.k"], .var "k",
      .list [.list [.list [.var "k"]]]]
    let w : Fact := .num 3.5
    s.eval 2 (.obj facts) = .ok w ∧ w.ShownInFull ∧
      facts.insert "k" w.toJson =
        [("a", .obj [("k", .num (.double 1.5))]), ("k", .num (.double 3.5))] ∧
      e.eval 3 (.obj (facts.insert "k" w.toJson)) = .ok w ∧
      (substitute "k" s e).eval 3 (.obj facts) = .error (.tooDeep 3) ∧
      (substitute "k" s e).eval 6 (.obj facts) = .ok w := by
  intro facts s e w
  have hs : s.eval 2 (.obj facts) = .ok w := by
    show Except.ok (Fact.num (-0.0 + (Number.int 2).toFloat + 1.5)) = .ok w
    rfl
  have hw : w.ShownInFull := by
    constructor
    · rfl
    · decide +kernel
    · decide +kernel
  have hkept : facts.insert "k" w.toJson =
      [("a", .obj [("k", .num (.double 1.5))]), ("k", .num (.double 3.5))] := rfl
  have he : e.eval 3 (.obj (facts.insert "k" w.toJson)) = .ok w := by
    rw [hkept]
    rfl
  have hpaths : ∀ path ∈ e.paths,
      path ≠ "" ∧ (path = "k" ∨ (Path.segments path).head? ≠ some "k") := by
    decide
  rcases eval_substitute (by decide) (by decide) hpaths hs hw with ⟨value, _, hvalue, honly, _⟩
  rw [← honly 3 w he] at hvalue
  exact ⟨hs, hw, hkept, he, rfl, hvalue 6 (by decide)⟩

end Expr
end Reckoner
