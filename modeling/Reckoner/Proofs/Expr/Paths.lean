import Reckoner.Proofs.Expr.Equations
import Reckoner.Proofs.Fact.Alike

/-!
# Expressions read facts through their paths

The only way from an expression to the facts is a path that occurs in it.  Two
contexts that are alike at all of these paths give alike values, or the same error.
-/

namespace Reckoner

/-!
# Results side by side
-/

/-- Two results that are the same error, or values in a relation. -/
inductive Alongside {ε α : Type} (R : α -> α -> Prop) : Except ε α -> Except ε α -> Prop where
  | ok {x y : α} : R x y -> Alongside R (.ok x) (.ok y)
  | error (e : ε) : Alongside R (.error e) (.error e)

namespace Alongside

variable {ε α β : Type} {R : α -> α -> Prop} {S : β -> β -> Prop} {x y : Except ε α}

theorem refl (hrefl : ∀ a, R a a) (x : Except ε α) : Alongside R x x := by
  cases x with
  | ok a => exact ok (hrefl a)
  | error e => exact error e

theorem bind (h : Alongside R x y) {f g : α -> Except ε β}
    (hnext : ∀ a b, R a b -> Alongside S (f a) (g b)) :
    Alongside S (x >>= f) (y >>= g) := by
  cases h with
  | ok hvalues => exact hnext _ _ hvalues
  | error e => exact error e

theorem map (h : Alongside R x y) {f g : α -> β}
    (hnext : ∀ a b, R a b -> S (f a) (g b)) :
    Alongside S (x.map f) (y.map g) := by
  cases h with
  | ok hvalues => exact ok (hnext _ _ hvalues)
  | error e => exact error e

theorem map_eq (h : Alongside R x y) {f g : α -> β} (hnext : ∀ a b, R a b -> f a = g b) :
    x.map f = y.map g := by
  cases h with
  | ok hvalues => exact congrArg Except.ok (hnext _ _ hvalues)
  | error e => rfl

theorem bind_eq (h : Alongside R x y) {f g : α -> Except ε β}
    (hnext : ∀ a b, R a b -> f a = g b) : (x >>= f) = (y >>= g) := by
  cases h with
  | ok hvalues => exact hnext _ _ hvalues
  | error e => rfl

end Alongside

namespace Expr

mutual

def paths : Expr -> List String
  | .literal _ => []
  | .list items => pathsOfItems items
  | .var path => [path]
  | .call _ args => pathsOfItems args

def pathsOfItems : List Expr -> List String
  | [] => []
  | item :: rest => item.paths ++ pathsOfItems rest

end

/-!
# Evaluating in two contexts
-/

variable {f g : Json}

mutual

theorem evalAt_alike (limit : Nat) : ∀ (room : Nat) (e : Expr),
    (∀ p ∈ e.paths, (f.lookup p).Alike (g.lookup p)) ->
    Alongside Fact.Alike (evalAt f limit room e) (evalAt g limit room e)
  | 0, e, _ => by
      rw [evalAt_zero, evalAt_zero]
      exact .error _
  | room + 1, .literal value, _ => by
      rw [evalAt_literal, evalAt_literal]
      exact .ok (Fact.Alike.refl _)
  | room + 1, .list items, h => by
      rw [evalAt_list, evalAt_list]
      exact (evalAll_alike limit room items h).map fun _ _ hitems => Fact.Alike.list hitems
  | room + 1, .var path, h => by
      rw [evalAt_var, evalAt_var]
      exact .ok (h path (List.mem_singleton_self path))
  | room + 1, .call op args, h => by
      rcases op.reads_cases with ⟨count, hfirst⟩ | hall | hand | hor | hcond
      · rw [evalAt_first f limit room hfirst, evalAt_first g limit room hfirst]
        exact (evalFirst_alike limit room count args h).map fun _ _ => op.apply_alike _
      · rw [evalAt_all f limit room hall, evalAt_all g limit room hall]
        exact (evalAll_alike limit room args h).map fun _ _ => op.apply_alike _
      · rw [hand, evalAt_and, evalAt_and, evalSome_eq limit room false args h]
        exact Alongside.refl Fact.Alike.refl _
      · rw [hor, evalAt_or, evalAt_or, evalSome_eq limit room true args h]
        exact Alongside.refl Fact.Alike.refl _
      · rw [hcond]
        cases args with
        | nil =>
            rw [evalAt_cond_nil, evalAt_cond_nil]
            exact .ok (Fact.Alike.refl .null)
        | cons test branches =>
            rw [evalAt_cond_cons, evalAt_cond_cons]
            have htest := evalAt_alike limit room test
              fun p hp => h p (List.mem_append_left _ hp)
            apply htest.bind
            intro x y hxy
            rw [hxy.truthy]
            exact evalBranch_alike limit room branches _
              fun p hp => h p (List.mem_append_right _ hp)

theorem evalAll_alike (limit room : Nat) : ∀ es : List Expr,
    (∀ p ∈ pathsOfItems es, (f.lookup p).Alike (g.lookup p)) ->
    Alongside Fact.AllAlike (evalAll f limit room es) (evalAll g limit room es)
  | [], _ => by
      unfold evalAll
      exact .ok (Fact.AllAlike.refl [])
  | e :: es, h => by
      have hhead := evalAt_alike limit room e fun p hp => h p (List.mem_append_left _ hp)
      have htail := evalAll_alike limit room es fun p hp => h p (List.mem_append_right _ hp)
      unfold evalAll
      exact hhead.bind fun _ _ hx => htail.bind fun _ _ hxs => .ok (Fact.AllAlike.cons hx hxs)

theorem evalFirst_alike (limit room : Nat) : ∀ (count : Nat) (es : List Expr),
    (∀ p ∈ pathsOfItems es, (f.lookup p).Alike (g.lookup p)) ->
    Alongside Fact.AllAlike (evalFirst f limit room count es) (evalFirst g limit room count es)
  | count, [], _ => by
      unfold evalFirst
      exact .ok (Fact.AllAlike.refl _)
  | 0, e :: es, _ => by
      unfold evalFirst
      exact .ok (Fact.AllAlike.refl [])
  | count + 1, e :: es, h => by
      have hhead := evalAt_alike limit room e fun p hp => h p (List.mem_append_left _ hp)
      have htail := evalFirst_alike limit room count es
        fun p hp => h p (List.mem_append_right _ hp)
      unfold evalFirst
      exact hhead.bind fun _ _ hx => htail.bind fun _ _ hxs => .ok (Fact.AllAlike.cons hx hxs)

theorem evalSome_eq (limit room : Nat) (wanted : Bool) : ∀ es : List Expr,
    (∀ p ∈ pathsOfItems es, (f.lookup p).Alike (g.lookup p)) ->
    evalSome f limit room wanted es = evalSome g limit room wanted es
  | [], _ => by
      unfold evalSome
      rfl
  | e :: es, h => by
      have hhead := evalAt_alike limit room e fun p hp => h p (List.mem_append_left _ hp)
      have htail := evalSome_eq limit room wanted es
        fun p hp => h p (List.mem_append_right _ hp)
      unfold evalSome
      apply hhead.bind_eq
      intro x y hxy
      rw [hxy.truthy, htail]

theorem evalBranch_alike (limit room : Nat) : ∀ (es : List Expr) (i : Nat),
    (∀ p ∈ pathsOfItems es, (f.lookup p).Alike (g.lookup p)) ->
    Alongside Fact.Alike (evalBranch f limit room es i) (evalBranch g limit room es i)
  | [], _, _ => by
      unfold evalBranch
      exact .ok (Fact.Alike.refl .null)
  | e :: es, 0, h => by
      unfold evalBranch
      exact evalAt_alike limit room e fun p hp => h p (List.mem_append_left _ hp)
  | e :: es, i + 1, h => by
      unfold evalBranch
      exact evalBranch_alike limit room es i fun p hp => h p (List.mem_append_right _ hp)

end

end Expr
end Reckoner
