import Reckoner.Proofs.Graph.Requests
import Mathlib.Data.List.Perm.Subperm
import Mathlib.Order.WellFounded

/-!
# Every resolution ends

Nothing in the steps of a resolution says that there are finitely many of them: a
question may start a computation that asks again, and so on, and a node that is asked for
again may then be computed by another program.  But the nodes in progress are different
nodes of the graph, so only so many computations are open inside each other, and each of
them comes to an end of the program that it was started with.
-/

namespace Reckoner
namespace Moment

variable {γ : Type} {g : FactGraph γ}

/-!
# No run goes on for ever

The induction is on the nodes that are not in progress, and inside of it on a program.  A
question ends if everything does that may follow its answer, and a computation that it
starts has one node less to start others for.
-/

/-- No run goes on for ever from a moment. -/
abbrev Ends (g : FactGraph γ) : Moment -> Prop :=
  Acc (flip (Step g))

theorem ends_of_running {node : Option String} {callers : List Caller} {inProgress : List String}
    (hask : ∀ callers,
      (∀ answer p seeded, Ends g ⟨.answering answer, callers, inProgress, p, seeded⟩) ->
      ∀ id p seeded, Ends g ⟨.asking id, callers, inProgress, p, seeded⟩)
    (hdone : ∀ result p seeded,
      Ends g ⟨.running node (.done result), callers, inProgress, p, seeded⟩)
    (program : Pull (Except GraphError Json)) (p : Progress) (seeded : List String) :
    Ends g ⟨.running node program, callers, inProgress, p, seeded⟩ := by
  induction program generalizing p seeded with
  | done result => exact hdone result p seeded
  | get id next ih =>
      have hanswered (answer : Except GraphError Json) (p : Progress) (seeded : List String) :
          Ends g ⟨.answering answer, ⟨node, next⟩ :: callers, inProgress, p, seeded⟩ := by
        constructor
        intro n hstep
        rw [Step.eq_of_answering hstep rfl rfl]
        exact ih answer p seeded
      constructor
      intro n hstep
      rw [Step.eq_of_get hstep rfl]
      exact hask _ hanswered id p seeded
  | seed id value next ih =>
      constructor
      intro n hstep
      rw [Step.eq_of_seed hstep rfl]
      exact ih _ _
  | current next ih =>
      constructor
      intro n hstep
      rw [Step.eq_of_current hstep rfl]
      exact ih _ p seeded
  | look next ih =>
      constructor
      intro n hstep
      rw [Step.eq_of_look hstep rfl]
      exact ih _ _ p seeded

theorem ends_of_asking (g : FactGraph γ) (inProgress : List String) (callers : List Caller)
    (hback : ∀ answer p seeded, Ends g ⟨.answering answer, callers, inProgress, p, seeded⟩)
    (id : String) (p : Progress) (seeded : List String) :
    Ends g ⟨.asking id, callers, inProgress, p, seeded⟩ := by
  constructor
  intro n hstep
  rcases Step.cases_of_asking hstep rfl with ⟨value, _, rfl⟩ | ⟨_, _, rfl⟩ |
    ⟨node, _, hnode, ⟨_, rfl⟩ | ⟨hidle, program, rfl⟩⟩
  · exact hback _ p seeded
  · exact hback _ p seeded
  · exact hback _ p seeded
  · -- the computation ends by an answer, after which the node is not in progress any more
    refine ends_of_running (ends_of_asking g (id :: inProgress)) ?_ program _ seeded
    intro result p seeded
    constructor
    intro n hstep
    rcases Step.exists_of_done hstep rfl with ⟨_, q, rfl⟩
    exact hback result q seeded
termination_by (g.idle inProgress).length
decreasing_by exact FactGraph.length_idle_cons_lt hnode hidle

theorem ends_of_start {program : Pull (Except GraphError Json)} {m : Moment}
    (hm : Reaches g (start program) m) : Ends g m := by
  induction hm with
  | refl =>
      refine ends_of_running (ends_of_asking g []) ?_ program {} []
      intro result p seeded
      constructor
      intro n hstep
      exact absurd rfl (Step.exists_of_done hstep rfl).1
  | tail _ hstep ih => exact ih.inv hstep

/-!
# Where a run may stop

While a question is open there is always something that may happen next, and it leaves
the question open or answers it.
-/

theorem exists_step {program : Pull (Except GraphError Json)} {m : Moment}
    (hm : Reaches g (start program) m) (hcallers : m.callers ≠ []) : ∃ n, Step g m n := by
  rcases m with ⟨activity, callers, inProgress, p, seeded⟩
  cases activity with
  | running node rest =>
      cases rest with
      | get id next => exact ⟨_, .ask rfl⟩
      | seed id value next => exact ⟨_, .seed rfl⟩
      | current next => exact ⟨_, .current rfl⟩
      | look next => exact ⟨_, .look rfl⟩
      | done result =>
          cases node with
          | none =>
              rcases exists_run hm with ⟨_, hrun⟩
              exact absurd ((linked_of_running hrun rfl).2.eq_none_iff.mp rfl) hcallers
          | some id =>
              cases result with
              | ok value => exact ⟨_, .complete rfl⟩
              | error e => exact ⟨_, .fail rfl⟩
  | asking id =>
      cases hmemo : p.memo.get? id with
      | some value => exact ⟨_, .known rfl hmemo⟩
      | none =>
          cases hnode : g.nodes.get? id with
          | none => exact ⟨_, .undeclared rfl hmemo hnode⟩
          | some node =>
              by_cases hactive : id ∈ inProgress
              · exact ⟨_, .cyclic rfl hmemo hnode hactive⟩
              · exact ⟨_, .enter (.done (.ok .null)) rfl hmemo hnode hactive⟩
  | answering answer =>
      cases callers with
      | nil => exact absurd rfl hcallers
      | cons caller callers => exact ⟨_, .resume rfl rfl⟩

theorem Step.callers_cases {m n : Moment} (h : Step g m n) :
    m.callers <:+ n.callers ∨
      ∃ answer caller, m.activity = .answering answer ∧ m.callers = caller :: n.callers := by
  cases h with
  | ask => exact .inl (List.suffix_cons _ m.callers)
  | seed | current | look | known | undeclared | cyclic | enter | complete | fail =>
      exact .inl (List.suffix_refl m.callers)
  | resume hanswer hcallers => exact .inr ⟨_, _, hanswer, hcallers⟩

theorem Within.step {k m n : Moment} (h : Within g k.callers k m)
    (hopen : ¬ ∃ answer, Returns g k m answer) (hstep : Step g m n) : Within g k.callers k n := by
  refine h.tail ⟨hstep, ?_⟩
  rcases hstep.callers_cases with hsuffix | ⟨answer, caller, hanswer, hcallers⟩
  · exact h.suffix.trans hsuffix
  · have hsuffix := h.suffix
    rw [hcallers] at hsuffix
    rcases List.suffix_cons_iff.mp hsuffix with heq | hrest
    · exact absurd ⟨answer, h, hanswer, hcallers.trans heq.symm⟩ hopen
    · exact hrest

/-!
# How many computations are open
-/

theorem Consistent.length_computing_le {m : Moment} (h : m.Consistent g) :
    m.computing.length ≤ g.size := by
  have hdeclared : m.inProgress ⊆ g.ids := by
    intro id hid
    exact Table.contains_iff_mem_keys.mp (h.inProgress_declared id hid)
  have hlength : g.ids.length = g.size := List.length_map Prod.fst
  calc m.computing.length
      = m.inProgress.length := by rw [h.inProgress_eq]
    _ ≤ g.ids.length := (h.inProgress_nodup.subperm hdeclared).length_le
    _ = g.size := hlength

/-!
# The end of a run and of every question
-/

theorem run_terminates {program : Pull (Except GraphError Json)} {m : Moment}
    (hm : Reaches g (start program) m) :
    (¬ ∃ run : Nat -> Moment, run 0 = m ∧ ∀ i, Step g (run i) (run (i + 1))) ∧
      (∀ id, m.activity = .asking id ->
        (∀ n, Within g m.callers m n ->
          (∃ answer, Returns g m n answer) ∨
            (∃ next, Step g n next) ∧ ∀ next, Step g n next -> Within g m.callers m next) ∧
        ∀ context, ∃ n, Returns g m n (g.pull context m.inProgress id m.progress).1) ∧
      m.computing.length ≤ g.size := by
  refine ⟨?_, fun id hask => ⟨?_, ?_⟩, (Consistent.of_reaches hm).length_computing_le⟩
  · rintro ⟨run, hfirst, hrun⟩
    exact (acc_iff_isEmpty_descending_chain.mp (ends_of_start hm)).false ⟨run, hfirst, hrun⟩
  · intro n hwithin
    by_cases hopen : ∃ answer, Returns g m n answer
    · exact .inl hopen
    · have hasker : m.callers ≠ [] := by
        intro hnil
        rcases exists_run hm with ⟨_, hrun⟩
        have hnone := (waiting_of_asking hrun hask).eq_none_iff.mpr hnil
        cases hnone
      have hcallers : n.callers ≠ [] := by
        intro hnil
        have hsuffix := hwithin.suffix
        rw [hnil] at hsuffix
        exact hasker (List.suffix_nil.mp hsuffix)
      exact .inr ⟨exists_step (hm.trans hwithin.reaches) hcallers,
        fun next hstep => hwithin.step hopen hstep⟩
  · intro context
    rcases returns_pull hask context with ⟨n, hreturns, _⟩
    exact ⟨n, hreturns⟩

/-- Two nodes that ask for each other.  One of them asks again when it meets an error, and the
other one fails at first without asking for anything. -/
theorem run_terminates_asking_again :
    let again : Except GraphError Json -> Pull (Except GraphError Json)
      | .ok value => .done (.ok value)
      | .error _ => .get "b" .done
    let g : FactGraph Unit :=
      { nodes := [
          ("a", { id := "a", compute := fun _ => .get "b" again }),
          ("b", { id := "b", compute := fun _ => .get "a" .done })] }
    let m : Moment :=
      { activity := .asking "a"
        callers := [⟨some "b", .done⟩, ⟨some "a", .done⟩, ⟨none, .done⟩]
        inProgress := ["b", "a"]
        progress := { started := ["a", "b", "b"] } }
    Reaches g (start (.get "a" .done)) m ∧
      (¬ ∃ run : Nat -> Moment, run 0 = m ∧ ∀ i, Step g (run i) (run (i + 1))) ∧
      (∃ next, Step g m next) ∧
      (∃ n, Returns g m n (.error (.cyclic ["a", "b", "a"]))) ∧
      m.computing.length ≤ g.size := by
  intro again g m
  have hb : g.nodes.get? "b" = some { id := "b", compute := fun _ => .get "a" .done } := rfl
  have hreaches : Reaches g (start (.get "a" .done)) m := by
    refine .head (.ask rfl) (.head (.enter (.get "b" again) rfl rfl rfl (by decide)) ?_)
    refine .head (.ask rfl) (.head (.enter (.done (.error default)) rfl rfl hb (by decide)) ?_)
    refine .head (.fail rfl) (.head (.resume rfl rfl) ?_)
    refine .head (.ask rfl) (.head (.enter (.get "a" .done) rfl rfl hb (by decide)) ?_)
    exact .single (.ask rfl)
  rcases run_terminates hreaches with ⟨hfinite, hcalls, hopen⟩
  rcases hcalls "a" rfl with ⟨hgoes, hpull⟩
  have hasked : ¬ ∃ answer, Returns g m m answer := by
    rintro ⟨answer, _, hactivity, _⟩
    cases hactivity
  have ha : g.nodes.get? "a" = some { id := "a", compute := fun _ => .get "b" again } := rfl
  have hanswer := hpull ()
  rw [FactGraph.pull_of_active rfl ha (by decide)] at hanswer
  refine ⟨hreaches, hfinite, ?_, hanswer, hopen⟩
  exact ((hgoes m .refl).resolve_left hasked).1

end Moment
end Reckoner
