import Reckoner.Proofs.Expr.Paths
import Reckoner.Proofs.Rule.Reports

/-!
# Rule sets read facts through their paths

The paths of a rule set are those in its gates, assertions and scores, and in the
expressions inside its emissions.  Nothing else of the facts reaches an outcome, and
a path that leads nowhere does the same as one that leads to null.
-/

namespace Reckoner

namespace Template

mutual

def paths : Template -> List String
  | .expr e => e.paths
  | .list items => pathsOfItems items
  | .map entries => pathsOfEntries entries
  | .literal _ => []

def pathsOfItems : List Template -> List String
  | [] => []
  | item :: rest => item.paths ++ pathsOfItems rest

def pathsOfEntries : List (String × Template) -> List String
  | [] => []
  | (_, value) :: rest => value.paths ++ pathsOfEntries rest

end

end Template

namespace Rule

def paths (r : Rule) : List String :=
  r.gate?.toList.flatMap Expr.paths ++
    (r.assertion?.toList.flatMap Expr.paths ++
      ((r.scores?.getD []).flatMap (fun entry => entry.2.paths) ++
        r.emission?.toList.flatMap Template.paths))

end Rule

namespace RuleSet

def paths (s : RuleSet) : List String :=
  s.rules.flatMap Rule.paths

end RuleSet

variable {f g : Json}

namespace Expr

theorem eval_alike (limit : Nat) (e : Expr)
    (h : ∀ p ∈ e.paths, (f.lookup p).Alike (g.lookup p)) :
    Alongside Fact.Alike (e.eval limit f) (e.eval limit g) :=
  evalAt_alike limit limit e h

end Expr

namespace Template

/-!
# Emissions
-/

mutual

theorem renderAt_eq (limits : Limits) : ∀ (room : Nat) (t : Template),
    (∀ p ∈ t.paths, (f.lookup p).Alike (g.lookup p)) ->
    renderAt limits f room t = renderAt limits g room t
  | 0, t, _ => by
      rw [renderAt_zero, renderAt_zero]
  | room + 1, .expr e, h => by
      rw [renderAt_expr, renderAt_expr]
      exact (Expr.eval_alike limits.expr e h).map_eq fun _ _ hvalue => hvalue.toJson
  | room + 1, .list items, h => by
      rw [renderAt_list, renderAt_list, renderItems_eq limits room items h]
  | room + 1, .map entries, h => by
      rw [renderAt_map, renderAt_map, renderEntries_eq limits room entries h]
  | room + 1, .literal value, _ => by
      rw [renderAt_literal, renderAt_literal]

theorem renderItems_eq (limits : Limits) (room : Nat) : ∀ ts : List Template,
    (∀ p ∈ pathsOfItems ts, (f.lookup p).Alike (g.lookup p)) ->
    renderItems limits f room ts = renderItems limits g room ts
  | [], _ => by
      unfold renderItems
      rfl
  | t :: ts, h => by
      unfold renderItems
      rw [renderAt_eq limits room t fun p hp => h p (List.mem_append_left _ hp),
        renderItems_eq limits room ts fun p hp => h p (List.mem_append_right _ hp)]

theorem renderEntries_eq (limits : Limits) (room : Nat) : ∀ ts : List (String × Template),
    (∀ p ∈ pathsOfEntries ts, (f.lookup p).Alike (g.lookup p)) ->
    renderEntries limits f room ts = renderEntries limits g room ts
  | [], _ => by
      unfold renderEntries
      rfl
  | (name, t) :: ts, h => by
      unfold renderEntries
      rw [renderAt_eq limits room t fun p hp => h p (List.mem_append_left _ hp),
        renderEntries_eq limits room ts fun p hp => h p (List.mem_append_right _ hp)]

end

end Template

namespace Rule

/-!
# The parts of a rule
-/

theorem opens_eq (limits : Limits) (r : Rule)
    (h : ∀ e, r.gate? = some e -> ∀ p ∈ e.paths, (f.lookup p).Alike (g.lookup p)) :
    r.opens limits f = r.opens limits g := by
  unfold opens
  cases hgate : r.gate? with
  | none => rfl
  | some e =>
      exact (Expr.eval_alike limits.expr e (h e hgate)).map_eq fun _ _ hvalue => hvalue.truthy

theorem failsAssertion_eq (limits : Limits) (r : Rule)
    (h : ∀ e, r.assertion? = some e -> ∀ p ∈ e.paths, (f.lookup p).Alike (g.lookup p)) :
    r.failsAssertion limits f = r.failsAssertion limits g := by
  unfold failsAssertion
  cases hassertion : r.assertion? with
  | none => rfl
  | some e =>
      apply (Expr.eval_alike limits.expr e (h e hassertion)).map_eq
      intro x y hvalue
      rw [hvalue.truthy]

theorem contributions_eq (limits : Limits) (scores : List (String × Expr))
    (h : ∀ p ∈ scores.flatMap (fun entry => entry.2.paths), (f.lookup p).Alike (g.lookup p)) :
    contributions limits f scores = contributions limits g scores := by
  induction scores with
  | nil => rfl
  | cons entry rest ih =>
      have hhead := Expr.eval_alike limits.expr entry.2
        fun p hp => h p (List.mem_append_left _ hp)
      have htail := ih fun p hp => h p (List.mem_append_right _ hp)
      unfold contributions
      apply hhead.bind_eq
      intro x y hvalue
      rw [hvalue.number, htail]

theorem emission_eq (limits : Limits) (r : Rule)
    (h : ∀ t, r.emission? = some t -> ∀ p ∈ t.paths, (f.lookup p).Alike (g.lookup p)) :
    r.emission limits f = r.emission limits g := by
  unfold emission
  cases hemission : r.emission? with
  | none => rfl
  | some t =>
      unfold Template.render
      simp only [Template.renderAt_eq limits limits.template t (h t hemission)]

theorem report_eq (limits : Limits) (r : Rule)
    (h : ∀ p ∈ r.paths, (f.lookup p).Alike (g.lookup p)) :
    r.report limits f = r.report limits g := by
  have hopens := r.opens_eq limits fun e he p hp =>
    h p (by simp [paths, he, hp])
  have hassertion := r.failsAssertion_eq limits fun e he p hp =>
    h p (by simp [paths, he, hp])
  have hscores := contributions_eq limits (r.scores?.getD []) fun p hp =>
    h p (List.mem_append_right _ (List.mem_append_right _ (List.mem_append_left _ hp)))
  have hemission := r.emission_eq limits fun t ht p hp =>
    h p (by simp [paths, ht, hp])
  unfold report
  rw [hopens, hassertion, hscores, hemission]

end Rule

namespace RuleSet

/-!
# The whole rule set
-/

theorem reports_eq (limits : Limits) (rules : List Rule)
    (h : ∀ r ∈ rules, r.report limits f = r.report limits g) :
    reports limits f rules = reports limits g rules := by
  induction rules with
  | nil => rfl
  | cons r rest ih =>
      have hrest := ih fun other hother => h other (List.mem_cons_of_mem r hother)
      unfold reports
      rw [h r List.mem_cons_self, hrest]

end RuleSet

namespace Fact

/-- Nothing at all, or null. -/
def isMissing : Fact -> Bool
  | .absent | .null => true
  | _ => false

theorem alike_of_missing {x y : Fact}
    (h : x = y ∨ (x.isMissing = true ∧ y.isMissing = true)) : x.Alike y := by
  rcases h with heq | ⟨hx, hy⟩
  · rw [heq]
    exact Alike.refl y
  · cases x <;> cases y <;> simp_all [isMissing] <;> rfl

end Fact

namespace RuleSet

theorem evaluate_eq_of_paths (s : RuleSet) (limits : Limits) (initial : Table Float)
    {f g : Json}
    (h : ∀ p ∈ s.paths,
      f.lookup p = g.lookup p ∨
        ((f.lookup p).isMissing = true ∧ (g.lookup p).isMissing = true)) :
    s.evaluate limits f initial = s.evaluate limits g initial := by
  have hreports : reports limits f s.rules = reports limits g s.rules := by
    apply reports_eq
    intro r hr
    apply r.report_eq limits
    intro p hp
    exact Fact.alike_of_missing (h p (List.mem_flatMap.mpr ⟨r, hr, hp⟩))
  unfold evaluate
  rw [evaluateFrom_eq_reports, evaluateFrom_eq_reports, hreports]

/-- A missing entry, null in its place, and an entry that no path leads to. -/
theorem evaluate_eq_of_paths_null :
    let s : RuleSet :=
      { id := "stems"
        version := "1"
        rules := [
          { id := "shared"
            scores? := some [
              ("stem", .call .len [
                .call .intersect [.list [.var "stem"], .list [.literal .null, .var "heat"]]])]
            emission? := some (.list [.expr (.list [.var "stem", .var "heat"])]) }] }
    let f : Json := .obj [("heat", .num (.int 2))]
    let g : Json := .obj [("heat", .num (.int 2)), ("stem", .null), ("unread", .bool true)]
    (∀ p ∈ s.paths,
      f.lookup p = g.lookup p ∨
        ((f.lookup p).isMissing = true ∧ (g.lookup p).isMissing = true)) ∧
      s.evaluate {} f [] = s.evaluate {} g [] := by
  intro s f g
  have hpaths : ∀ p ∈ s.paths,
      f.lookup p = g.lookup p ∨
        ((f.lookup p).isMissing = true ∧ (g.lookup p).isMissing = true) := by
    have hlisted : s.paths = ["stem", "heat", "stem", "heat"] := rfl
    have hstem : (f.lookup "stem").isMissing = true ∧ (g.lookup "stem").isMissing = true := by
      decide +kernel
    have hheat : f.lookup "heat" = g.lookup "heat" := rfl
    intro p hp
    rw [hlisted] at hp
    simp only [List.mem_cons, List.not_mem_nil, or_false] at hp
    rcases hp with rfl | rfl | rfl | rfl
    · exact Or.inr hstem
    · exact Or.inl hheat
    · exact Or.inr hstem
    · exact Or.inl hheat
  exact ⟨hpaths, s.evaluate_eq_of_paths {} [] hpaths⟩

end RuleSet
end Reckoner
