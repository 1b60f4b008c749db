import Reckoner.Proofs.Expr.Limits
import Reckoner.Proofs.Rule.Reports

/-!
# Limits and outcomes

A template spends levels of its own, and every expression in it starts again with the
levels of expressions.  So a rule set has two limits.  Its outcome is the same under all
limits under which there is one, and there is one if no expression and no emission is
nested too deep.
-/

namespace Reckoner

namespace Template

mutual

def exprs : Template -> List Expr
  | .expr e => [e]
  | .list items => exprsOfItems items
  | .map entries => exprsOfEntries entries
  | .literal _ => []

def exprsOfItems : List Template -> List Expr
  | [] => []
  | t :: ts => t.exprs ++ exprsOfItems ts

def exprsOfEntries : List (String × Template) -> List Expr
  | [] => []
  | (_, t) :: ts => t.exprs ++ exprsOfEntries ts

end

mutual

/-- The depth of the deepest node of a template below its root. Expressions are leaves. -/
def nesting : Template -> Nat
  | .expr _ => 0
  | .list items => nestingOfItems items
  | .map entries => nestingOfEntries entries
  | .literal _ => 0

def nestingOfItems : List Template -> Nat
  | [] => 0
  | t :: ts => max (t.nesting + 1) (nestingOfItems ts)

def nestingOfEntries : List (String × Template) -> Nat
  | [] => 0
  | (_, t) :: ts => max (t.nesting + 1) (nestingOfEntries ts)

end

/-!
# Emissions
-/

def Fits (es : List Expr) (levels : Nat) (a : Level) : Prop :=
  (∀ e ∈ es, e.nesting < a.limits.expr) ∧ levels ≤ a.left

section Siblings

variable {α : Type} {es more : List Expr} {levels others : Nat}

theorem Fits.head {a : Level} (h : Fits (es ++ more) (max levels others) a) :
    Fits es levels a :=
  ⟨fun e he => h.1 e (List.mem_append_left more he), Nat.le_trans (Nat.le_max_left _ _) h.2⟩

theorem Fits.tail {a : Level} (h : Fits (es ++ more) (max levels others) a) :
    Fits more others a :=
  ⟨fun e he => h.1 e (List.mem_append_right es he), Nat.le_trans (Nat.le_max_right _ _) h.2⟩

/-- The computation for a template, followed by one for those beside it. -/
theorem steady_cons {first : Level -> Except EvalError Json}
    {rest : Json -> Level -> Except EvalError α}
    (hfirst : Steady Level.limiting (Fits es levels) first)
    (hrest : ∀ x, Steady Level.limiting (Fits more others) (rest x)) :
    Steady Level.limiting (Fits (es ++ more) (max levels others))
      fun a => first a >>= fun x => rest x a :=
  (hfirst.narrow fun _ => Fits.head).bind fun x => (hrest x).narrow fun _ => Fits.tail

end Siblings

variable (facts : Json)

/-- The computation for a template, from one for what is below its root. -/
theorem steady_renderAt {t : Template} {es : List Expr} {levels : Nat}
    {inner : Level -> Except EvalError Json}
    (h : Steady Level.limiting (Fits es levels) inner)
    (hsucc : ∀ limits left, renderAt limits facts (left + 1) t = inner ⟨limits, left⟩) :
    Steady Level.limiting (Fits es (levels + 1))
      fun a => renderAt a.limits facts a.left t := by
  refine h.deeper (fun limits => Or.inr rfl) ?_ hsucc ?_ ?_
  · exact fun limits => renderAt_zero limits facts t
  · exact fun limits hfits => Nat.not_succ_le_zero levels hfits.2
  · exact fun limits left hfits => ⟨hfits.1, Nat.le_of_lt_succ hfits.2⟩

/-- An expression in a template has all the levels of expressions, wherever it stands. -/
theorem eval_steady_inside (e : Expr) :
    Steady Level.limiting (Fits [e] 0) fun a => e.eval a.limits.expr facts := by
  have hexpr := (Expr.eval_steady facts e).under (M := Level.limiting) Level.limits
    (fun _ _ hwider => hwider.1) fun _ _ hblames => hblames
  exact hexpr.narrow fun a hfits => hfits.1 e (List.mem_singleton_self e)

mutual

theorem renderAt_steady : ∀ t : Template,
    Steady Level.limiting (Fits t.exprs (t.nesting + 1))
      fun a => renderAt a.limits facts a.left t
  | .expr e =>
      steady_renderAt facts ((eval_steady_inside facts e).map Fact.toJson) fun limits left =>
        renderAt_expr limits facts left e
  | .list items =>
      steady_renderAt facts ((renderItems_steady items).map .arr) fun limits left =>
        renderAt_list limits facts left items
  | .map entries =>
      steady_renderAt facts ((renderEntries_steady entries).map .obj) fun limits left =>
        renderAt_map limits facts left entries
  | .literal value =>
      steady_renderAt facts (.ok value) fun limits left =>
        renderAt_literal limits facts left value

theorem renderItems_steady : ∀ ts : List Template,
    Steady Level.limiting (Fits (exprsOfItems ts) (nestingOfItems ts))
      fun a => renderItems a.limits facts a.left ts
  | [] => by
      unfold renderItems
      exact .ok []
  | t :: ts => by
      unfold renderItems
      exact steady_cons (renderAt_steady t) fun value =>
        (renderItems_steady ts).bind fun values => .ok (value :: values)

theorem renderEntries_steady : ∀ ts : List (String × Template),
    Steady Level.limiting (Fits (exprsOfEntries ts) (nestingOfEntries ts))
      fun a => renderEntries a.limits facts a.left ts
  | [] => by
      unfold renderEntries
      exact .ok []
  | (name, t) :: ts => by
      unfold renderEntries
      exact steady_cons (renderAt_steady t) fun value =>
        (renderEntries_steady ts).bind fun values => .ok ((name, value) :: values)

end

theorem render_steady (t : Template) :
    Steady Limits.limiting (fun limits => Fits t.exprs (t.nesting + 1) ⟨limits, limits.template⟩)
      fun limits => t.render limits facts :=
  (renderAt_steady facts t).under (fun limits => ⟨limits, limits.template⟩)
    (fun _ _ hwider => ⟨hwider, hwider.2⟩) fun _ _ hblames => hblames

end Template

/-!
# Rules

Everything that a rule says is an expression or an emission of its own.
-/

namespace Rule

def exprs (r : Rule) : List Expr :=
  r.gate?.toList ++ r.assertion?.toList ++ (r.scores?.getD []).map Prod.snd ++
    r.emission?.toList.flatMap Template.exprs

structure Fits (r : Rule) (limits : Limits) : Prop where
  exprs : ∀ e ∈ r.exprs, e.nesting < limits.expr
  emission : ∀ t ∈ r.emission?, t.nesting < limits.template

section Parts

variable {r : Rule} {e : Expr} {t : Template}

theorem mem_exprs :
    e ∈ r.exprs ↔
      ((r.gate? = some e ∨ r.assertion? = some e) ∨
        ∃ name, (name, e) ∈ r.scores?.getD []) ∨
      ∃ t, r.emission? = some t ∧ e ∈ t.exprs := by
  unfold exprs
  simp only [List.mem_append, List.mem_map, List.mem_flatMap, Option.mem_toList, Prod.exists,
    exists_eq_right]

theorem mem_exprs_of_gate (hgate : r.gate? = some e) : e ∈ r.exprs :=
  mem_exprs.mpr (Or.inl (Or.inl (Or.inl hgate)))

theorem mem_exprs_of_assertion (hassertion : r.assertion? = some e) : e ∈ r.exprs :=
  mem_exprs.mpr (Or.inl (Or.inl (Or.inr hassertion)))

theorem mem_exprs_of_score {name : String} (hscore : (name, e) ∈ r.scores?.getD []) :
    e ∈ r.exprs :=
  mem_exprs.mpr (Or.inl (Or.inr ⟨name, hscore⟩))

theorem mem_exprs_of_emission (hemission : r.emission? = some t) (he : e ∈ t.exprs) :
    e ∈ r.exprs :=
  mem_exprs.mpr (Or.inr ⟨t, hemission, he⟩)

end Parts

variable (facts : Json)

theorem opens_steady (r : Rule) :
    Steady Limits.limiting r.Fits fun limits => r.opens limits facts := by
  unfold opens
  cases hgate : r.gate? with
  | none => exact .ok true
  | some e =>
      apply ((Expr.eval_steady facts e).map Fact.truthy).narrow
      exact fun limits hfits => hfits.exprs e (mem_exprs_of_gate hgate)

theorem failsAssertion_steady (r : Rule) :
    Steady Limits.limiting r.Fits fun limits => r.failsAssertion limits facts := by
  unfold failsAssertion
  cases hassertion : r.assertion? with
  | none => exact .ok false
  | some e =>
      apply ((Expr.eval_steady facts e).map fun x => !x.truthy).narrow
      exact fun limits hfits => hfits.exprs e (mem_exprs_of_assertion hassertion)

theorem contributions_steady (scores : List (String × Expr)) :
    Steady Limits.limiting (fun limits => ∀ entry ∈ scores, entry.2.nesting < limits.expr)
      fun limits => contributions limits facts scores := by
  induction scores with
  | nil =>
      unfold contributions
      exact .ok []
  | cons entry rest ih =>
      unfold contributions
      apply Steady.cons (Expr.eval_steady facts entry.2)
      exact fun x => ih.bind fun others =>
        .ok (if x.number.isFinite then (entry.1, x.number) :: others else others)

theorem emission_steady (r : Rule) :
    Steady Limits.limiting r.Fits fun limits => r.emission limits facts := by
  unfold emission
  cases hemission : r.emission? with
  | none => exact .ok none
  | some t =>
      apply ((Template.render_steady facts t).map some).narrow
      intro limits hfits
      constructor
      · exact fun e he => hfits.exprs e (mem_exprs_of_emission hemission he)
      · exact hfits.emission t hemission

theorem report_steady (r : Rule) :
    Steady Limits.limiting r.Fits fun limits => r.report limits facts := by
  have hscores : Steady Limits.limiting r.Fits
      fun limits => contributions limits facts (r.scores?.getD []) := by
    apply (contributions_steady facts (r.scores?.getD [])).narrow
    exact fun limits hfits entry hentry => hfits.exprs entry.2 (mem_exprs_of_score hentry)
  unfold report
  apply (opens_steady facts r).bind
  intro isOpen
  cases isOpen with
  | false => exact .ok none
  | true =>
      exact (failsAssertion_steady facts r).bind fun assertionFailed =>
        hscores.bind fun contribution =>
          (emission_steady facts r).bind fun emission? =>
            Steady.ok (some (Report.mk assertionFailed contribution emission?))

end Rule

/-!
# Rule sets
-/

namespace RuleSet

def exprs (s : RuleSet) : List Expr :=
  s.rules.flatMap Rule.exprs

def emissions (s : RuleSet) : List Template :=
  s.rules.filterMap Rule.emission?

theorem reports_steady (facts : Json) (rules : List Rule) :
    Steady Limits.limiting (fun limits => ∀ r ∈ rules, r.Fits limits)
      fun limits => reports limits facts rules := by
  induction rules with
  | nil =>
      unfold reports
      exact .ok []
  | cons r rest ih =>
      unfold reports
      apply Steady.cons (Rule.report_steady facts r)
      exact fun report? => ih.bind fun later =>
        .ok ((report?.map fun report => (r, report)).toList ++ later)

theorem evaluate_steady (s : RuleSet) (facts : Json) (initial : Table Float) :
    Steady Limits.limiting (fun limits => ∀ r ∈ s.rules, r.Fits limits)
      fun limits => s.evaluate limits facts initial := by
  have hreports := (reports_steady facts s.rules).map (Outcome.enterAll { scores := initial })
  have hevaluate : (fun limits => s.evaluate limits facts initial) =
      fun limits => (reports limits facts s.rules).map (Outcome.enterAll { scores := initial }) :=
    funext fun limits => evaluateFrom_eq_reports limits facts { scores := initial } s.rules
  rw [hevaluate]
  exact hreports

theorem fits_of_mem {s : RuleSet} {limits : Limits}
    (hexprs : ∀ e ∈ s.exprs, e.nesting + 1 ≤ limits.expr)
    (hemissions : ∀ t ∈ s.emissions, t.nesting + 1 ≤ limits.template) {r : Rule}
    (hr : r ∈ s.rules) :
    r.Fits limits where
  exprs := fun e he => hexprs e (List.mem_flatMap.mpr ⟨r, hr, he⟩)
  emission := fun t ht => hemissions t (List.mem_filterMap.mpr ⟨r, hr, ht⟩)

/-- Limits decide whether there is an outcome, and never which one. -/
theorem evaluate_under_limits (s : RuleSet) (limits : Limits) (facts : Json)
    (initial : Table Float) :
    (∀ o, s.evaluate limits facts initial = .ok o ->
      ∀ more : Limits, limits.expr ≤ more.expr -> limits.template ≤ more.template ->
        s.evaluate more facts initial = .ok o) ∧
    (∀ e, s.evaluate limits facts initial = .error e ->
      e = .tooDeep limits.expr ∨ e = .tooDeep limits.template) ∧
    ((∀ e ∈ s.exprs, e.nesting + 1 ≤ limits.expr) ->
      (∀ t ∈ s.emissions, t.nesting + 1 ≤ limits.template) ->
      ∃ o, s.evaluate limits facts initial = .ok o) := by
  have hsteady := evaluate_steady s facts initial
  constructor
  · intro o hrun more hexpr htemplate
    exact hsteady.keeps limits more o ⟨hexpr, htemplate⟩ hrun
  · constructor
    · exact fun e herror => hsteady.blames limits e herror
    · intro hexprs hemissions
      exact hsteady.answers limits fun r hr => fits_of_mem hexprs hemissions hr

/-- An alternative that is not looked at may be nested deeper than the limit. -/
theorem evaluate_under_limits_unread :
    let unread : Expr := .call .not [.call .not [.var "a"]]
    let s : RuleSet :=
      { id := "s"
        version := "1"
        rules := [
          { id := "r"
            gate? := some (.call .or [.bool true, unread])
            emission? := some (.list [.expr (.list [.text "b"])]) }] }
    let emission : Json := .arr [.arr [.str "b"]]
    let o : Outcome :=
      { emits := [emission], trace := [{ ruleId := "r", emission? := some emission }] }
    ¬ (∀ e ∈ s.exprs, e.nesting + 1 ≤ 2) ∧
      (∀ more : Limits, 2 ≤ more.expr -> 2 ≤ more.template ->
        s.evaluate more (.obj []) [] = .ok o) ∧
      (∀ facts, ∃ o, s.evaluate ⟨4, 2⟩ facts [] = .ok o) ∧
      s.evaluate ⟨1, 2⟩ (.obj []) [] = .error (.tooDeep 1) ∧
      s.evaluate ⟨4, 1⟩ (.obj []) [] = .error (.tooDeep 1) := by
  intro unread s emission o
  have hrun : s.evaluate ⟨2, 2⟩ (.obj []) [] = .ok o := rfl
  have hroom : ∀ facts, ∃ o, s.evaluate ⟨4, 2⟩ facts [] = .ok o := by
    intro facts
    apply (evaluate_under_limits s ⟨4, 2⟩ facts []).2.2
    · exact List.forall_iff_forall_mem.mp (by decide)
    · exact List.forall_iff_forall_mem.mp (by decide)
  constructor
  · intro hfits
    have hgate := hfits (.call .or [.bool true, unread]) List.mem_cons_self
    exact absurd hgate (by decide)
  · exact ⟨(evaluate_under_limits s ⟨2, 2⟩ (.obj []) []).1 o hrun, hroom, rfl, rfl⟩

end RuleSet
end Reckoner
