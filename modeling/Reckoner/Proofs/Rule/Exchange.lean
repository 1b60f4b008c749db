import Reckoner.Proofs.Rule.Trace
import Reckoner.Proofs.Table

/-!
# Neighbouring rules exchanged

Two neighbouring rules that score under different names may change their places.
Addition of doubles is not associative, so this needs that no score gets its summands
in another order.  Both rules add to different scores, and they find those that the
rules before them have left.
-/

namespace Reckoner

namespace Outcome

/-!
# Scores
-/

theorem addScores_insert {contribution : Table Float} {name : String}
    (hnew : name ∉ contribution.keys) (scores : Table Float) (score : Float) :
    addScores (scores.insert name score) contribution =
      (addScores scores contribution).insert name score := by
  induction contribution generalizing scores with
  | nil => rfl
  | cons entry rest ih =>
      have hne : name ≠ entry.1 := fun heq => hnew (heq ▸ List.mem_cons_self)
      have hrest : name ∉ Table.keys rest := fun hmem => hnew (List.mem_cons_of_mem _ hmem)
      rw [addScores_cons, addScores_cons, Table.get?_insert_of_ne scores score hne,
        Table.insert_comm scores hne, ih hrest]

theorem get?_addScores_of_not_mem {contribution : Table Float} {name : String}
    (hnew : name ∉ contribution.keys) (scores : Table Float) :
    (addScores scores contribution).get? name = scores.get? name := by
  have hnone : Table.under name contribution = [] := by
    apply List.filterMap_eq_nil_iff.mpr
    intro entry hentry
    apply if_neg
    rintro rfl
    exact hnew (List.mem_map_of_mem hentry)
  rw [get?_addScores, hnone, added_nil]

/-- Contributions to different scores may be added in either order. -/
theorem addScores_comm {xs ys : Table Float} (hdisjoint : xs.keys.Disjoint ys.keys)
    (scores : Table Float) :
    addScores (addScores scores xs) ys = addScores (addScores scores ys) xs := by
  induction xs generalizing scores with
  | nil => rfl
  | cons entry rest ih =>
      rcases List.disjoint_cons_left.mp hdisjoint with ⟨hentry, hrest⟩
      rw [addScores_cons, addScores_cons, ih hrest, addScores_insert hentry,
        get?_addScores_of_not_mem hentry]

/-!
# Lists
-/

/-- Lists that differ in the order of two neighbours at most, of which each may be missing. -/
def Exchanged {α : Type} (x? y? : Option α) (xs ys : List α) : Prop :=
  ∃ before later,
    xs = before ++ x?.toList ++ y?.toList ++ later ∧
      ys = before ++ y?.toList ++ x?.toList ++ later

theorem exchanged_filterMap {α β : Type} (f : α -> Option β) (front back : List α) (a b : α) :
    Exchanged (f a) (f b) ((front ++ a :: b :: back).filterMap f)
      ((front ++ b :: a :: back).filterMap f) := by
  have hcons (x : α) (rest : List α) :
      (x :: rest).filterMap f = (f x).toList ++ rest.filterMap f := by
    rw [List.filterMap_cons]
    cases f x with
    | none => rfl
    | some y => rfl
  refine ⟨front.filterMap f, back.filterMap f, ?_, ?_⟩
  · rw [List.filterMap_append, hcons, hcons, List.append_assoc, List.append_assoc]
  · rw [List.filterMap_append, hcons, hcons, List.append_assoc, List.append_assoc]

end Outcome

namespace Rule

theorem keys_contribution {r : Rule} {limits : Limits} {facts : Json} {report? : Option Report}
    (hreport : r.report limits facts = .ok report?) :
    (r.contribution limits facts).keys.Sublist (Table.keys (r.scores?.getD [])) := by
  unfold contribution
  rcases reported?_cases hreport with ⟨_, hnone⟩ | ⟨report, htells, hsome⟩
  · rw [hnone]
    exact List.nil_sublist _
  · rw [hsome]
    exact htells.keys

end Rule

namespace RuleSet

theorem scores_gathered_swap {limits : Limits} {facts : Json} {a b : Rule}
    (hdisjoint : (a.contribution limits facts).keys.Disjoint (b.contribution limits facts).keys)
    (initial : Table Float) (front back : List Rule) :
    (gathered limits facts initial (front ++ b :: a :: back)).scores =
      (gathered limits facts initial (front ++ a :: b :: back)).scores := by
  unfold gathered
  dsimp only
  rw [List.foldl_append, List.foldl_append]
  simp only [List.foldl_cons]
  rw [Outcome.addScores_comm hdisjoint]

/-- If there is an outcome, there is one with two neighbours exchanged that score under different
names. It has the same scores, and its lists differ by what these two rules leave. -/
theorem evaluate_swap {s : RuleSet} {front back : List Rule} {a b : Rule}
    (hrules : s.rules = front ++ a :: b :: back)
    (hdisjoint : ∀ name ∈ Table.keys (a.scores?.getD []), name ∉ Table.keys (b.scores?.getD []))
    {limits : Limits} {facts : Json} {initial : Table Float} {o : Outcome}
    (hrun : s.evaluate limits facts initial = .ok o) :
    ∃ swapped,
      { s with rules := front ++ b :: a :: back }.evaluate limits facts initial = .ok swapped ∧
      swapped.scores = o.scores ∧
      Outcome.Exchanged (a.match? limits facts) (b.match? limits facts) o.trace swapped.trace ∧
      Outcome.Exchanged (a.emitted? limits facts) (b.emitted? limits facts) o.emits
        swapped.emits ∧
      Outcome.Exchanged (a.failure? limits facts) (b.failure? limits facts) o.failures
        swapped.failures := by
  rcases evaluate_eq_ok_iff.mp hrun with ⟨hall, ho⟩
  rw [hrules] at hall ho
  have hperm : (front ++ b :: a :: back).Perm (front ++ a :: b :: back) :=
    (List.Perm.swap a b back).append_left front
  have hswapped : ∀ r ∈ front ++ b :: a :: back, ∃ report?, r.report limits facts = .ok report? :=
    fun r hr => hall r (hperm.mem_iff.mp hr)
  rcases hall a (by simp) with ⟨reportA?, hreportA⟩
  rcases hall b (by simp) with ⟨reportB?, hreportB⟩
  have hkeys : (a.contribution limits facts).keys.Disjoint (b.contribution limits facts).keys := by
    intro name ha hb
    exact hdisjoint name ((Rule.keys_contribution hreportA).subset ha)
      ((Rule.keys_contribution hreportB).subset hb)
  refine ⟨gathered limits facts initial (front ++ b :: a :: back),
    evaluate_eq_ok_iff.mpr ⟨hswapped, rfl⟩, ?_, ?_, ?_, ?_⟩
  · rw [ho]
    exact scores_gathered_swap hkeys initial front back
  all_goals
    rw [ho]
    exact Outcome.exchanged_filterMap _ front back a b

/-- Two rules between rules that add to the scores of both. Each of them emits a text, and the
assertion of one fails. -/
theorem evaluate_swap_between :
    let outer : Rule := { id := "o", scores? := some [("x", .number 1), ("y", .number 1e16)] }
    let a : Rule :=
      { id := "a"
        scores? := some [("x", .number 1e16)]
        emission? := some (.literal (.str "a")) }
    let b : Rule :=
      { id := "b"
        scores? := some [("y", .number 1)]
        emission? := some (.literal (.str "b"))
        assertion? := some (.bool false) }
    let s : RuleSet := { id := "s", version := "1", rules := [outer, a, b, outer] }
    ∃ o swapped, s.evaluate {} (.obj []) [] = .ok o ∧
      { s with rules := [outer, b, a, outer] }.evaluate {} (.obj []) [] = .ok swapped ∧
      swapped.scores = o.scores ∧
      Outcome.Exchanged (some (.str "a")) (some (.str "b")) o.emits swapped.emits ∧
      Outcome.Exchanged none (some b.failure) o.failures swapped.failures := by
  intro outer a b s
  have hrun : ∃ o, s.evaluate {} (.obj []) [] = .ok o := ⟨_, rfl⟩
  rcases hrun with ⟨o, ho⟩
  have hrules : s.rules = [outer] ++ a :: b :: [outer] := rfl
  have hdisjoint : ∀ name ∈ Table.keys (a.scores?.getD []),
      name ∉ Table.keys (b.scores?.getD []) := by
    show ∀ name ∈ ["x"], name ∉ ["y"]
    decide
  rcases evaluate_swap hrules hdisjoint ho with
    ⟨swapped, hswapped, hscores, _, hemits, hfailures⟩
  exact ⟨o, swapped, ho, hswapped, hscores, hemits, hfailures⟩

/-- Rules that score under one name may not be exchanged: the summands come in another order. -/
example :
    let a : Rule := { id := "a", scores? := some [("x", .number 0.1)] }
    let b : Rule := { id := "b", scores? := some [("x", .number 0.2)] }
    let score (rules : List Rule) : Except EvalError Float :=
      ({ id := "s", version := "1", rules : RuleSet }.evaluate {} (.obj []) [("x", 0.3)]).map
        fun o => o.score "x"
    score [a, b] = .ok (0.3 + 0.1 + 0.2) ∧ score [b, a] = .ok (0.3 + 0.2 + 0.1) ∧
      (0.3 + 0.1 + 0.2 : Float) ≠ 0.3 + 0.2 + 0.1 :=
  ⟨rfl, rfl, by decide +kernel⟩

end RuleSet
end Reckoner
