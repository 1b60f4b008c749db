import Reckoner.Proofs.Expr.Equations
import Reckoner.Proofs.Fact.Tables
import Reckoner.Template.Render

/-!
# Values that are found

Over the facts of a document the value of an expression is a fact whose maps are
tables, and what is rendered for a template is a value of a document, if the template
has tables for its maps and values of documents for its data.
-/

namespace Reckoner

/-- All that a computation may end in has a property; it may also fail. -/
def Yields {ε α : Type} (P : α -> Prop) (x : Except ε α) : Prop :=
  ∀ a, x = .ok a -> P a

namespace Yields

variable {ε α β : Type} {P : α -> Prop} {Q : β -> Prop} {x : Except ε α}

theorem ok {a : α} (h : P a) : Yields P (.ok a : Except ε α) := by
  rintro _ ⟨⟩
  exact h

theorem error (e : ε) : Yields P (.error e : Except ε α) := by
  rintro _ ⟨⟩

theorem bind (h : Yields P x) {f : α -> Except ε β} (hnext : ∀ a, P a -> Yields Q (f a)) :
    Yields Q (x >>= f) := by
  cases x with
  | error e => exact error e
  | ok a => exact hnext a (h a rfl)

theorem map (h : Yields P x) {f : α -> β} (hnext : ∀ a, P a -> Q (f a)) :
    Yields Q (x.map f) := by
  cases x with
  | error e => exact error e
  | ok a => exact ok (hnext a (h a rfl))

end Yields

/-!
# Expressions
-/

namespace Fact

def WellFormed (x : Fact) : Prop :=
  x.isWellFormed = true

def AllWellFormed (xs : List Fact) : Prop :=
  ∀ x ∈ xs, x.WellFormed

theorem AllWellFormed.nil : AllWellFormed [] :=
  fun _ hx => nomatch hx

theorem AllWellFormed.cons {x : Fact} {xs : List Fact} (hx : x.WellFormed)
    (hxs : AllWellFormed xs) : AllWellFormed (x :: xs) :=
  List.forall_mem_cons.mpr ⟨hx, hxs⟩

end Fact

namespace Expr

variable {facts : Json}

mutual

theorem evalAt_yields (hfacts : facts.isWellFormed = true) (limit : Nat) :
    ∀ (room : Nat) (e : Expr), Yields Fact.WellFormed (evalAt facts limit room e)
  | 0, e => by
      rw [evalAt_zero]
      exact .error _
  | room + 1, .literal value => by
      rw [evalAt_literal]
      apply Yields.ok
      cases value <;> rfl
  | room + 1, .list items => by
      rw [evalAt_list]
      exact (evalAll_yields hfacts limit room items).map fun _ hitems =>
        Fact.wellFormedItems_iff.mpr hitems
  | room + 1, .var path => by
      rw [evalAt_var]
      exact .ok (Json.isWellFormed_lookup hfacts path)
  | room + 1, .call op args => by
      rcases op.reads_cases with ⟨count, hfirst⟩ | hall | hand | hor | hcond
      · rw [evalAt_first facts limit room hfirst]
        exact (evalFirst_yields hfacts limit room count args).map fun _ => op.isWellFormed_apply _
      · rw [evalAt_all facts limit room hall]
        exact (evalAll_yields hfacts limit room args).map fun _ => op.isWellFormed_apply _
      · rw [hand, evalAt_and]
        exact Yields.map (P := fun _ => True) (fun _ _ => trivial) fun _ _ => rfl
      · rw [hor, evalAt_or]
        exact Yields.map (P := fun _ => True) (fun _ _ => trivial) fun _ _ => rfl
      · rw [hcond]
        cases args with
        | nil =>
            rw [evalAt_cond_nil]
            exact .ok rfl
        | cons test branches =>
            rw [evalAt_cond_cons]
            exact (evalAt_yields hfacts limit room test).bind fun _ _ =>
              evalBranch_yields hfacts limit room branches _

theorem evalAll_yields (hfacts : facts.isWellFormed = true) (limit room : Nat) : ∀ es : List Expr,
    Yields Fact.AllWellFormed (evalAll facts limit room es)
  | [] => by
      unfold evalAll
      exact .ok .nil
  | e :: es => by
      unfold evalAll
      exact (evalAt_yields hfacts limit room e).bind fun _ hx =>
        (evalAll_yields hfacts limit room es).bind fun _ hxs => .ok (.cons hx hxs)

theorem evalFirst_yields (hfacts : facts.isWellFormed = true) (limit room : Nat) :
    ∀ (count : Nat) (es : List Expr),
    Yields Fact.AllWellFormed (evalFirst facts limit room count es)
  | count, [] => by
      unfold evalFirst
      apply Yields.ok
      intro x hx
      rw [List.eq_of_mem_replicate hx]
      rfl
  | 0, e :: es => by
      unfold evalFirst
      exact .ok .nil
  | count + 1, e :: es => by
      unfold evalFirst
      exact (evalAt_yields hfacts limit room e).bind fun _ hx =>
        (evalFirst_yields hfacts limit room count es).bind fun _ hxs => .ok (.cons hx hxs)

theorem evalBranch_yields (hfacts : facts.isWellFormed = true) (limit room : Nat) :
    ∀ (es : List Expr) (i : Nat),
    Yields Fact.WellFormed (evalBranch facts limit room es i)
  | [], _ => by
      unfold evalBranch
      exact .ok rfl
  | e :: es, 0 => by
      unfold evalBranch
      exact evalAt_yields hfacts limit room e
  | e :: es, i + 1 => by
      unfold evalBranch
      exact evalBranch_yields hfacts limit room es i

end

end Expr

/-!
# Templates
-/

namespace Template

mutual

def isWellFormed : Template -> Bool
  | .expr _ => true
  | .list items => wellFormedItems items
  | .map entries => decide (Table.Sorted entries) && wellFormedEntries entries
  | .literal value => value.isWellFormed

def wellFormedItems : List Template -> Bool
  | [] => true
  | t :: ts => t.isWellFormed && wellFormedItems ts

def wellFormedEntries : List (String × Template) -> Bool
  | [] => true
  | (_, t) :: ts => t.isWellFormed && wellFormedEntries ts

end

variable {facts : Json}

mutual

theorem renderAt_yields (hfacts : facts.isWellFormed = true) (limits : Limits) :
    ∀ (room : Nat) (t : Template), t.isWellFormed = true ->
    Yields (fun value => value.isWellFormed = true) (renderAt limits facts room t)
  | 0, t, _ => by
      rw [renderAt_zero]
      exact .error _
  | room + 1, .expr e, _ => by
      rw [renderAt_expr]
      exact (Expr.evalAt_yields hfacts limits.expr limits.expr e).map Fact.isWellFormed_toJson
  | room + 1, .list items, h => by
      rw [renderAt_list]
      exact (renderItems_yields hfacts limits room items h).map fun _ hvalues => hvalues
  | room + 1, .map entries, h => by
      rcases Bool.and_eq_true_iff.mp h with ⟨hsorted, hentries⟩
      rw [renderAt_map]
      refine Yields.map (renderEntries_yields hfacts limits room entries hentries) ?_
      rintro values ⟨hkeys, hvalues⟩
      have htable : Table.Sorted values := by
        rw [Table.sorted_iff_keys, hkeys, ← Table.sorted_iff_keys]
        exact of_decide_eq_true hsorted
      exact Bool.and_eq_true_iff.mpr ⟨decide_eq_true htable, hvalues⟩
  | room + 1, .literal value, h => by
      rw [renderAt_literal]
      exact .ok h

theorem renderItems_yields (hfacts : facts.isWellFormed = true) (limits : Limits) (room : Nat) :
    ∀ ts : List Template, wellFormedItems ts = true ->
    Yields (fun values => Json.wellFormedItems values = true)
      (renderItems limits facts room ts)
  | [], _ => by
      unfold renderItems
      exact .ok rfl
  | t :: ts, h => by
      rcases Bool.and_eq_true_iff.mp h with ⟨ht, hts⟩
      unfold renderItems
      exact (renderAt_yields hfacts limits room t ht).bind fun _ hvalue =>
        (renderItems_yields hfacts limits room ts hts).bind fun _ hvalues =>
          .ok (Bool.and_eq_true_iff.mpr ⟨hvalue, hvalues⟩)

theorem renderEntries_yields (hfacts : facts.isWellFormed = true) (limits : Limits)
    (room : Nat) : ∀ ts : List (String × Template),
    wellFormedEntries ts = true ->
    Yields (fun values => Table.keys values = Table.keys ts ∧
      Json.wellFormedEntries values = true) (renderEntries limits facts room ts)
  | [], _ => by
      unfold renderEntries
      exact .ok ⟨rfl, rfl⟩
  | (name, t) :: ts, h => by
      rcases Bool.and_eq_true_iff.mp h with ⟨ht, hts⟩
      unfold renderEntries
      exact (renderAt_yields hfacts limits room t ht).bind fun _ hvalue =>
        (renderEntries_yields hfacts limits room ts hts).bind fun _ hvalues =>
          .ok ⟨congrArg (name :: ·) hvalues.1, Bool.and_eq_true_iff.mpr ⟨hvalue, hvalues.2⟩⟩

end

end Template
end Reckoner
