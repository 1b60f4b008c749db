import Mathlib.Data.List.Forall2
import Reckoner.Proofs.Rule.Accumulation
import Reckoner.Proofs.Rule.Outcomes

/-!
# Outcomes, rule by rule

An outcome lists what the rules leave behind, every rule by itself and in the order of
the rules.  So each entry belongs to one open rule: a trace entry to one that scores a
finite number or emits something, and a failure to one whose assertion has a value
that counts as false.  Rules may share their names, so entries are told apart by their
places.
-/

namespace Reckoner

namespace Rule

/-!
# What one rule leaves
-/

section Left

variable (limits : Limits) (facts : Json) (r : Rule)

def contribution : Table Float :=
  ((r.reported? limits facts).map fun entry => entry.2.contribution).getD []

def emitted? : Option Json :=
  (r.reported? limits facts).bind fun entry => entry.2.emission?

def failure? : Option Outcome.Failure :=
  (r.reported? limits facts).bind fun entry => Outcome.failureOf? entry.1 entry.2

def match? : Option Outcome.Match :=
  (r.reported? limits facts).bind fun entry => Outcome.matchOf? entry.1 entry.2

def failure : Outcome.Failure :=
  { ruleId := r.id, explanation? := r.explanation? }

def isRefuted : Bool :=
  denies limits facts r.assertion?

/-- Whether a rule has an emission or scores a finite number. -/
def contributes : Bool :=
  r.emission?.isSome ||
    (r.scores?.getD []).any fun entry => (entry.2.finiteNumber? limits facts).isSome

end Left

section Report

variable {limits : Limits} {facts : Json} {r : Rule} {report? : Option Report}

theorem isRefuted_of_failsAssertion {answer : Bool}
    (hfails : r.failsAssertion limits facts = .ok answer) :
    r.isRefuted limits facts = answer := by
  unfold failsAssertion at hfails
  unfold isRefuted
  cases hassertion : r.assertion? with
  | none =>
      rw [hassertion] at hfails
      exact Except.ok.inj hfails
  | some assertion =>
      rw [hassertion] at hfails
      rcases exists_of_map_eq_ok hfails with ⟨x, heval, hanswer⟩
      exact (denies_of_eval heval).trans hanswer

theorem isSome_emission {emission? : Option Json}
    (hemission : r.emission limits facts = .ok emission?) :
    emission?.isSome = r.emission?.isSome := by
  unfold emission at hemission
  cases ht : r.emission? with
  | none =>
      rw [ht] at hemission
      cases hemission
      rfl
  | some t =>
      rw [ht] at hemission
      rcases exists_of_map_eq_ok hemission with ⟨value, _, hvalue⟩
      rw [← hvalue]
      rfl

theorem isEmpty_contributions {scores : List (String × Expr)} {contribution : Table Float}
    (hscores : contributions limits facts scores = .ok contribution) :
    contribution.isEmpty =
      !scores.any fun entry => (entry.2.finiteNumber? limits facts).isSome := by
  rw [contributions_eq_filterMap hscores, Bool.eq_iff_iff]
  simp

structure Report.Tells (limits : Limits) (facts : Json) (r : Rule) (report : Report) : Prop where
  isOpen : r.isOpen limits facts = true
  failed : report.assertionFailed = r.isRefuted limits facts
  contributes :
    (!(report.contribution.isEmpty && report.emission?.isNone)) = r.contributes limits facts
  keys : report.contribution.keys.Sublist (Table.keys (r.scores?.getD []))
  finite : ∀ entry ∈ report.contribution, entry.2.isFinite = true

theorem reported?_cases (hreport : r.report limits facts = .ok report?) :
    (r.isOpen limits facts = false ∧ r.reported? limits facts = none) ∨
      ∃ report, report.Tells limits facts r ∧ r.reported? limits facts = some (r, report) := by
  rw [reported?_of_report hreport]
  rcases report_cases hreport with
    ⟨hclosed, hnone⟩ | ⟨report, hopen, hfails, hscores, hemission, hsome⟩
  · left
    rw [hnone]
    exact ⟨isOpen_of_opens hclosed, rfl⟩
  · right
    rcases contributions_yields limits facts _ _ hscores with ⟨hkeys, hfinite⟩
    refine ⟨report, ?_, by rw [hsome]; rfl⟩
    constructor
    · exact isOpen_of_opens hopen
    · exact (isRefuted_of_failsAssertion hfails).symm
    · unfold contributes
      rw [isEmpty_contributions hscores, ← isSome_emission hemission]
      cases report.emission? <;> simp
    · exact hkeys
    · exact hfinite

end Report

end Rule

/-!
# What all rules leave
-/

namespace RuleSet

/-- The outcome that collects what every rule leaves, on top of scores to start from. -/
def gathered (limits : Limits) (facts : Json) (initial : Table Float) (rules : List Rule) :
    Outcome where
  scores :=
    rules.foldl (fun scores r => Outcome.addScores scores (r.contribution limits facts)) initial
  emits := rules.filterMap (Rule.emitted? limits facts)
  failures := rules.filterMap (Rule.failure? limits facts)
  trace := rules.filterMap (Rule.match? limits facts)

theorem enterAll_reported (limits : Limits) (facts : Json) (initial : Table Float)
    (rules : List Rule) :
    Outcome.enterAll { scores := initial } (rules.filterMap (Rule.reported? limits facts)) =
      gathered limits facts initial rules := by
  have hparts (o : Outcome) : o = ⟨o.scores, o.emits, o.failures, o.trace⟩ := rfl
  rw [hparts (Outcome.enterAll _ _), Outcome.scores_enterAll, Outcome.emits_enterAll,
    Outcome.failures_enterAll, Outcome.trace_enterAll, List.foldl_filterMap]
  simp only [List.filterMap_filterMap, List.nil_append]
  unfold gathered
  congr 1
  apply List.foldl_ext
  intro scores r _
  unfold Rule.contribution
  cases r.reported? limits facts with
  | none => rfl
  | some entry => rfl

theorem evaluate_eq_ok_iff {s : RuleSet} {limits : Limits} {facts : Json}
    {initial : Table Float} {o : Outcome} :
    s.evaluate limits facts initial = .ok o ↔
      (∀ r ∈ s.rules, ∃ report?, r.report limits facts = .ok report?) ∧
        o = gathered limits facts initial s.rules := by
  constructor
  · intro hrun
    rcases evaluate_eq_ok hrun with ⟨hall, ho⟩
    exact ⟨hall, ho.trans (enterAll_reported limits facts initial s.rules)⟩
  · rintro ⟨hall, ho⟩
    unfold evaluate
    rw [evaluateFrom_eq_reports, reports_of_forall hall, ho,
      ← enterAll_reported limits facts initial s.rules]
    rfl

end RuleSet

/-!
# Entries and the rules they are for
-/

namespace Outcome

/-- What a trace entry says is true of a rule: what it repeats, that there is something to say,
and what its scores are like. -/
structure Match.TellsOf (m : Match) (r : Rule) : Prop where
  ruleId : m.ruleId = r.id
  explanation : m.explanation? = r.explanation?
  tags : m.tags = r.tags
  content : m.scores?.isSome = true ∨ m.emission?.isSome = true
  scores : ∀ scores, m.scores? = some scores ->
    scores ≠ [] ∧ scores.keys.Sublist (Table.keys (r.scores?.getD [])) ∧
      ∀ entry ∈ scores, entry.2.isFinite = true

theorem matchOf?_of_contributes {r : Rule} {report : Rule.Report} {limits : Limits} {facts : Json}
    (htells : report.Tells limits facts r) (hcontributes : r.contributes limits facts = true) :
    ∃ m, matchOf? r report = some m ∧ m.TellsOf r := by
  have hcontent := htells.contributes
  rw [hcontributes, Bool.not_eq_true'] at hcontent
  refine ⟨_, if_neg (Bool.eq_false_iff.mp hcontent), rfl, rfl, rfl, ?_, ?_⟩
  · cases hempty : report.contribution.isEmpty with
    | false => simp
    | true =>
        right
        rw [hempty, Bool.true_and] at hcontent
        simpa using hcontent
  · intro scores hscores
    dsimp only at hscores
    split at hscores
    · cases hscores
    · rename_i hne
      cases hscores
      exact ⟨fun hnil => hne (List.isEmpty_iff.mpr hnil), htells.keys, htells.finite⟩

theorem matchOf?_of_not_contributes {r : Rule} {report : Rule.Report} {limits : Limits}
    {facts : Json} (htells : report.Tells limits facts r)
    (hcontributes : r.contributes limits facts = false) : matchOf? r report = none := by
  have hcontent := htells.contributes
  rw [hcontributes, Bool.not_eq_false'] at hcontent
  exact if_pos hcontent

theorem matchOf?_bind_emission? (r : Rule) (report : Rule.Report) :
    (matchOf? r report).bind Match.emission? = report.emission? := by
  unfold matchOf?
  split
  · rename_i hnothing
    exact (Option.isNone_iff_eq_none.mp (Bool.and_eq_true_iff.mp hnothing).2).symm
  · rfl

end Outcome

namespace Rule

section Left

variable {limits : Limits} {facts : Json} {r : Rule} {report? : Option Report}

theorem emitted?_eq_bind : r.emitted? limits facts =
    (r.match? limits facts).bind Outcome.Match.emission? := by
  unfold emitted? match?
  cases r.reported? limits facts with
  | none => rfl
  | some entry => exact (Outcome.matchOf?_bind_emission? entry.1 entry.2).symm

theorem failure?_cases (hreport : r.report limits facts = .ok report?) :
    ((r.isOpen limits facts && r.isRefuted limits facts) = true ∧
        ∃ f, r.failure? limits facts = some f ∧ f = r.failure) ∨
      (r.isOpen limits facts && r.isRefuted limits facts) = false ∧
        r.failure? limits facts = none := by
  unfold failure?
  rcases reported?_cases hreport with ⟨hclosed, hnone⟩ | ⟨report, htells, hsome⟩
  · right
    rw [hnone, hclosed]
    exact ⟨rfl, rfl⟩
  · rw [hsome, htells.isOpen, Bool.true_and, ← htells.failed]
    cases hfailed : report.assertionFailed with
    | true => exact Or.inl ⟨rfl, r.failure, if_pos hfailed, rfl⟩
    | false => exact Or.inr ⟨rfl, if_neg (Bool.eq_false_iff.mp hfailed)⟩

theorem match?_cases (hreport : r.report limits facts = .ok report?) :
    ((r.isOpen limits facts && r.contributes limits facts) = true ∧
        ∃ m, r.match? limits facts = some m ∧ m.TellsOf r) ∨
      (r.isOpen limits facts && r.contributes limits facts) = false ∧
        r.match? limits facts = none := by
  unfold match?
  rcases reported?_cases hreport with ⟨hclosed, hnone⟩ | ⟨report, htells, hsome⟩
  · right
    rw [hnone, hclosed]
    exact ⟨rfl, rfl⟩
  · rw [hsome, htells.isOpen, Bool.true_and]
    cases hcontributes : r.contributes limits facts with
    | true => exact Or.inl ⟨rfl, Outcome.matchOf?_of_contributes htells hcontributes⟩
    | false => exact Or.inr ⟨rfl, Outcome.matchOf?_of_not_contributes htells hcontributes⟩

end Left

end Rule

namespace RuleSet

theorem forall₂_filterMap_filter {α β : Type} {f : α -> Option β} {p : α -> Bool}
    {R : β -> α -> Prop} {xs : List α}
    (h : ∀ x ∈ xs, (p x = true ∧ ∃ y, f x = some y ∧ R y x) ∨ p x = false ∧ f x = none) :
    List.Forall₂ R (xs.filterMap f) (xs.filter p) := by
  induction xs with
  | nil => exact .nil
  | cons x rest ih =>
      have hrest := ih fun other hother => h other (List.mem_cons_of_mem x hother)
      rcases h x List.mem_cons_self with ⟨hp, y, hy, hR⟩ | ⟨hp, hnone⟩
      · rw [List.filterMap_cons_some hy, List.filter_cons_of_pos hp]
        exact .cons hR hrest
      · rw [List.filterMap_cons_none hnone, List.filter_cons_of_neg (Bool.eq_false_iff.mp hp)]
        exact hrest

/-- The lists of an outcome agree with each other and with the rules. Open rules that score or emit
something have one trace entry each, in their order, and open rules with a refuted assertion have
one failure each, whether or not they are in the trace. -/
theorem evaluate_well_traced {s : RuleSet} {limits : Limits} {facts : Json}
    {initial : Table Float} {o : Outcome} (hrun : s.evaluate limits facts initial = .ok o) :
    o.emits = o.trace.filterMap Outcome.Match.emission? ∧
      List.Forall₂ Outcome.Match.TellsOf o.trace
        ((s.rules.filter (Rule.isOpen limits facts)).filter (Rule.contributes limits facts)) ∧
      o.failures =
        ((s.rules.filter (Rule.isOpen limits facts)).filter (Rule.isRefuted limits facts)).map
          Rule.failure := by
  rcases evaluate_eq_ok_iff.mp hrun with ⟨hall, ho⟩
  rw [ho]
  unfold gathered
  refine ⟨?_, ?_, ?_⟩
  · rw [List.filterMap_filterMap]
    exact List.filterMap_congr fun r _ => Rule.emitted?_eq_bind
  · rw [List.filter_filter]
    apply forall₂_filterMap_filter
    intro r hr
    rcases hall r hr with ⟨report?, hreport⟩
    rw [Bool.and_comm]
    exact Rule.match?_cases hreport
  · rw [← List.forall₂_eq_eq_eq, List.forall₂_map_right_iff, List.filter_filter]
    apply forall₂_filterMap_filter
    intro r hr
    rcases hall r hr with ⟨report?, hreport⟩
    rw [Bool.and_comm]
    exact Rule.failure?_cases hreport

/-- Three rules of one name, after one that is closed: an emission of null alone, a failure alone,
and a failure beside one score of which the other is infinite. -/
theorem evaluate_well_traced_shared :
    let infinite : Expr := .call .div [.number 1, .number 0]
    let closed : Rule :=
      { id := "a"
        gate? := some (.bool false)
        scores? := some [("x", .number 1)]
        assertion? := some (.bool false) }
    let emitting : Rule :=
      { id := "b"
        scores? := some [("x", infinite)]
        emission? := some (.expr (.var "missing")) }
    let silent : Rule :=
      { id := "b", scores? := some [], assertion? := some (.var "missing") }
    let scoring : Rule :=
      { id := "b"
        scores? := some [("x", infinite), ("y", .number 1.5)]
        assertion? := some (.number 0) }
    let s : RuleSet :=
      { id := "s", version := "1", rules := [closed, emitting, silent, scoring] }
    ∃ o, s.evaluate {} (.obj []) [] = .ok o ∧
      o.emits = [.null] ∧
      o.emits = o.trace.filterMap Outcome.Match.emission? ∧
      List.Forall₂ Outcome.Match.TellsOf o.trace [emitting, scoring] ∧
      o.failures = [silent.failure, scoring.failure] := by
  intro infinite closed emitting silent scoring s
  have hrun : ∃ o, s.evaluate {} (.obj []) [] = .ok o ∧ o.emits = [.null] := ⟨_, rfl, rfl⟩
  rcases hrun with ⟨o, ho, hnull⟩
  rcases evaluate_well_traced ho with ⟨hemits, htrace, hfailures⟩
  have hopen : s.rules.filter (Rule.isOpen {} (.obj [])) = [emitting, silent, scoring] := rfl
  rw [hopen] at htrace hfailures
  exact ⟨o, ho, hnull, hemits, htrace, hfailures⟩

end RuleSet
end Reckoner
