import Reckoner.Proofs.Graph.Recompute
import Reckoner.Proofs.Table
import Mathlib.Logic.Relation

/-!
# Resolution moment by moment

A resolution can be watched while it goes on.  At every moment a program is running, or
a node is asked for, or an answer is given, and the programs that have asked and not
been answered yet are waiting.  The nodes in progress are written down when their
computation starts and struck off when it ends, so the record could go wrong: a program
may ask again, deal with errors, and set values of nodes that are in progress.

What computes a node may also remember what it did before, so that a node which has
failed succeeds when it is asked for again.  A computation may therefore start with any
program here, and with another one each time.  If it is always the one that the graph
has for the node, the moments are those of resolution: from the moment in which a node
is asked for they lead to the answer of `FactGraph.pull`.  Every step keeps the record
right, whatever the programs do.
-/

namespace Reckoner

/-- A program that has asked for a node. The one outside of all nodes has no name. -/
structure Caller where
  node : Option String
  resume : Except GraphError Json -> Pull (Except GraphError Json)

inductive Activity where
  | running (node : Option String) (program : Pull (Except GraphError Json))
  | asking (id : String)
  | answering (answer : Except GraphError Json)

/-- A moment of a resolution. The callers, and the nodes in progress, are listed with the latest
first; the nodes whose values were set are listed as they were set. -/
structure Moment where
  activity : Activity
  callers : List Caller := []
  inProgress : List String := []
  progress : Progress := {}
  seeded : List String := []

namespace Activity

def node? : Activity -> Option String
  | running node _ => node
  | _ => none

end Activity

namespace Moment

variable {γ : Type}

def start (program : Pull (Except GraphError Json)) : Moment where
  activity := .running none program

/-- The nodes whose programs have started and not ended, with the latest first. -/
def computing (m : Moment) : List String :=
  m.activity.node?.toList ++ m.callers.filterMap Caller.node

/-!
# Steps

The first four steps are those of a program, whether it computes a node or not.  The
next four deal with a question, and the last three end a computation and hand its
answer on.
-/

/-- What may happen next at a moment. Only a question for a node that is neither known nor in
progress opens a computation, and nothing is said about the program that it starts with. -/
inductive Step (g : FactGraph γ) (m : Moment) : Moment -> Prop where
  | ask {node : Option String} {id : String}
      {next : Except GraphError Json -> Pull (Except GraphError Json)} :
      m.activity = .running node (.get id next) ->
      Step g m { m with activity := .asking id, callers := ⟨node, next⟩ :: m.callers }
  | seed {node : Option String} {id : String} {value : Json}
      {next : Pull (Except GraphError Json)} :
      m.activity = .running node (.seed id value next) ->
      Step g m
        { m with
          activity := .running node next
          progress := { m.progress with memo := m.progress.memo.insert id value }
          seeded := m.seeded ++ [id] }
  | current {node : Option String} {next : Option String -> Pull (Except GraphError Json)} :
      m.activity = .running node (.current next) ->
      Step g m { m with activity := .running node (next m.inProgress.head?) }
  | look {node : Option String}
      {next : List String -> Table Json -> Pull (Except GraphError Json)} :
      m.activity = .running node (.look next) ->
      Step g m { m with activity := .running node (next m.progress.order m.progress.memo) }
  | known {id : String} {value : Json} :
      m.activity = .asking id ->
      m.progress.memo.get? id = some value ->
      Step g m { m with activity := .answering (.ok value) }
  | undeclared {id : String} :
      m.activity = .asking id ->
      m.progress.memo.get? id = none ->
      g.nodes.get? id = none ->
      Step g m { m with activity := .answering (.error (.notFound id m.inProgress.head?)) }
  | cyclic {id : String} {node : Node γ} :
      m.activity = .asking id ->
      m.progress.memo.get? id = none ->
      g.nodes.get? id = some node ->
      id ∈ m.inProgress ->
      Step g m
        { m with activity := .answering (.error (.cyclic (FactGraph.cycle m.inProgress id))) }
  | enter {id : String} {node : Node γ} (program : Pull (Except GraphError Json)) :
      m.activity = .asking id ->
      m.progress.memo.get? id = none ->
      g.nodes.get? id = some node ->
      id ∉ m.inProgress ->
      Step g m
        { m with
          activity := .running (some id) program
          inProgress := id :: m.inProgress
          progress := { m.progress with started := m.progress.started ++ [id] } }
  | complete {id : String} {value : Json} :
      m.activity = .running (some id) (.done (.ok value)) ->
      Step g m
        { m with
          activity := .answering (.ok value)
          inProgress := m.inProgress.tail
          progress := { m.progress with
            order := m.progress.order ++ [id]
            memo := m.progress.memo.insert id value } }
  | fail {id : String} {e : GraphError} :
      m.activity = .running (some id) (.done (.error e)) ->
      Step g m { m with activity := .answering (.error e), inProgress := m.inProgress.tail }
  | resume {answer : Except GraphError Json} {caller : Caller} {callers : List Caller} :
      m.activity = .answering answer ->
      m.callers = caller :: callers ->
      Step g m
        { m with activity := .running caller.node (caller.resume answer), callers := callers }

/-!
# What happens next

It is settled by what is done at a moment, but for the program that a computation starts
with.
-/

section Next

variable {g : FactGraph γ} {m n : Moment} {node : Option String} {id : String}

theorem Step.eq_of_get {next : Except GraphError Json -> Pull (Except GraphError Json)}
    (h : Step g m n) (hrun : m.activity = .running node (.get id next)) :
    n = { m with activity := .asking id, callers := ⟨node, next⟩ :: m.callers } := by
  cases h <;> simp_all

theorem Step.eq_of_seed {value : Json} {next : Pull (Except GraphError Json)}
    (h : Step g m n) (hrun : m.activity = .running node (.seed id value next)) :
    n = { m with
      activity := .running node next
      progress := { m.progress with memo := m.progress.memo.insert id value }
      seeded := m.seeded ++ [id] } := by
  cases h <;> simp_all

theorem Step.eq_of_current {next : Option String -> Pull (Except GraphError Json)}
    (h : Step g m n) (hrun : m.activity = .running node (.current next)) :
    n = { m with activity := .running node (next m.inProgress.head?) } := by
  cases h <;> simp_all

theorem Step.eq_of_look {next : List String -> Table Json -> Pull (Except GraphError Json)}
    (h : Step g m n) (hrun : m.activity = .running node (.look next)) :
    n = { m with activity := .running node (next m.progress.order m.progress.memo) } := by
  cases h <;> simp_all

theorem Step.exists_of_done {result : Except GraphError Json} (h : Step g m n)
    (hrun : m.activity = .running node (.done result)) :
    node ≠ none ∧ ∃ progress, n = { m with
      activity := .answering result, inProgress := m.inProgress.tail, progress := progress } := by
  cases h with
  | complete hdone | fail hdone =>
      cases hrun.symm.trans hdone
      exact ⟨nofun, _, rfl⟩
  | _ => simp_all

theorem Step.eq_of_answering {answer : Except GraphError Json} {caller : Caller}
    {callers : List Caller} (h : Step g m n) (hanswer : m.activity = .answering answer)
    (hcallers : m.callers = caller :: callers) :
    n = { m with
      activity := .running caller.node (caller.resume answer), callers := callers } := by
  cases h <;> simp_all

theorem Step.cases_of_asking (h : Step g m n) (hask : m.activity = .asking id) :
    (∃ value, m.progress.memo.get? id = some value ∧
      n = { m with activity := .answering (.ok value) }) ∨
    (m.progress.memo.get? id = none ∧ g.nodes.get? id = none ∧
      n = { m with activity := .answering (.error (.notFound id m.inProgress.head?)) }) ∨
    ∃ node, m.progress.memo.get? id = none ∧ g.nodes.get? id = some node ∧
      ((id ∈ m.inProgress ∧ n = { m with
          activity := .answering (.error (.cyclic (FactGraph.cycle m.inProgress id))) }) ∨
        (id ∉ m.inProgress ∧ ∃ program, n = { m with
          activity := .running (some id) program
          inProgress := id :: m.inProgress
          progress := { m.progress with started := m.progress.started ++ [id] } })) := by
  cases h <;> simp_all

end Next

abbrev Reaches (g : FactGraph γ) : Moment -> Moment -> Prop :=
  Relation.ReflTransGen (Step g)

/-!
# Questions and their answers

While a question is open, its asker and the callers before it wait.  The question is
answered as soon as there is an answer and no caller has come on top of them.
-/

/-- A step during which some callers go on waiting. -/
def StepWithin (g : FactGraph γ) (callers : List Caller) (m n : Moment) : Prop :=
  Step g m n ∧ callers <:+ n.callers

abbrev Within (g : FactGraph γ) (callers : List Caller) : Moment -> Moment -> Prop :=
  Relation.ReflTransGen (StepWithin g callers)

/-- The question of a moment is answered at another one. -/
structure Returns (g : FactGraph γ) (m n : Moment) (answer : Except GraphError Json) : Prop where
  within : Within g m.callers m n
  activity : n.activity = .answering answer
  callers : n.callers = m.callers

section Run

variable {g : FactGraph γ} {m n : Moment}

theorem Step.within (h : Step g m n) (hcallers : n.callers = m.callers) : Within g m.callers m n :=
  .single ⟨h, [], hcallers.symm⟩

theorem Within.reaches {callers : List Caller} (h : Within g callers m n) : Reaches g m n :=
  Relation.ReflTransGen.mono (fun _ _ hstep => hstep.1) _ _ h

theorem Within.mono {callers fewer : List Caller} (hfewer : fewer <:+ callers)
    (h : Within g callers m n) : Within g fewer m n :=
  Relation.ReflTransGen.mono (fun _ _ hstep => ⟨hstep.1, hfewer.trans hstep.2⟩) _ _ h

theorem Within.suffix (h : Within g m.callers m n) : m.callers <:+ n.callers := by
  cases h with
  | refl => exact List.suffix_refl m.callers
  | tail _ hstep => exact hstep.2

/-!
# The moments of resolution

Running a program and asking for a node go through moments that end with what
`Pull.run` and `FactGraph.pull` give.  The callers that wait meanwhile, and the nodes
that were in progress before, are the same afterwards.
-/

theorem within_run {node : Option String} {inProgress : List String}
    (hnode : inProgress.head? = node)
    {ask : String -> Progress -> Except GraphError Json × Progress}
    (hask : ∀ id callers p seeded, ∃ seeded',
      Within g callers ⟨.asking id, callers, inProgress, p, seeded⟩
        ⟨.answering (ask id p).1, callers, inProgress, (ask id p).2, seeded'⟩)
    (program : Pull (Except GraphError Json)) (callers : List Caller) (p : Progress)
    (seeded : List String) :
    ∃ seeded',
      Within g callers ⟨.running node program, callers, inProgress, p, seeded⟩
        ⟨.running node (.done (program.run ask node p).1), callers, inProgress,
          (program.run ask node p).2, seeded'⟩ := by
  have hkept : callers <:+ callers := List.suffix_refl callers
  induction program generalizing p seeded with
  | done result =>
      exact ⟨seeded, .refl⟩
  | get id next ih =>
      have hmore : callers <:+ ⟨node, next⟩ :: callers := List.suffix_cons _ callers
      rcases hask id (⟨node, next⟩ :: callers) p seeded with ⟨asked, hanswer⟩
      rcases ih (ask id p).1 (ask id p).2 asked with ⟨seeded', hrest⟩
      have hresumed : Within g callers
          ⟨.answering (ask id p).1, ⟨node, next⟩ :: callers, inProgress, (ask id p).2, asked⟩ _ :=
        .head ⟨.resume rfl rfl, hkept⟩ hrest
      exact ⟨seeded', .head ⟨.ask rfl, hmore⟩ ((hanswer.mono hmore).trans hresumed)⟩
  | seed id value next ih =>
      rcases ih { p with memo := p.memo.insert id value } (seeded ++ [id]) with ⟨seeded', hrest⟩
      exact ⟨seeded', .head ⟨.seed rfl, hkept⟩ hrest⟩
  | current next ih =>
      rcases ih node p seeded with ⟨seeded', hrest⟩
      rw [← hnode] at hrest ⊢
      exact ⟨seeded', .head ⟨.current rfl, hkept⟩ hrest⟩
  | look next ih =>
      rcases ih p.order p.memo p seeded with ⟨seeded', hrest⟩
      exact ⟨seeded', .head ⟨.look rfl, hkept⟩ hrest⟩

theorem within_pull (g : FactGraph γ) (context : γ) (inProgress : List String) (id : String)
    (callers : List Caller) (p : Progress) (seeded : List String) :
    ∃ seeded',
      Within g callers ⟨.asking id, callers, inProgress, p, seeded⟩
        ⟨.answering (g.pull context inProgress id p).1, callers, inProgress,
          (g.pull context inProgress id p).2, seeded'⟩ := by
  have hkept : callers <:+ callers := List.suffix_refl callers
  cases hmemo : p.memo.get? id with
  | some value =>
      rw [FactGraph.pull_of_known hmemo]
      exact ⟨seeded, .single ⟨.known rfl hmemo, hkept⟩⟩
  | none =>
      cases hnode : g.nodes.get? id with
      | none =>
          rw [FactGraph.pull_of_undeclared hmemo hnode]
          exact ⟨seeded, .single ⟨.undeclared rfl hmemo hnode, hkept⟩⟩
      | some node =>
          by_cases hactive : id ∈ inProgress
          · rw [FactGraph.pull_of_active hmemo hnode hactive]
            exact ⟨seeded, .single ⟨.cyclic rfl hmemo hnode hactive, hkept⟩⟩
          · -- one more node is in progress inside, so fewer are left to become so
            have hinner := within_pull g context (id :: inProgress)
            have hhead : (id :: inProgress).head? = some id := rfl
            rcases within_run hhead hinner (node.compute context) callers
              { p with started := p.started ++ [id] } seeded with ⟨seeded', hrun⟩
            have hentered : Within g callers ⟨.asking id, callers, inProgress, p, seeded⟩ _ :=
              .head ⟨.enter (node.compute context) rfl hmemo hnode hactive, hkept⟩ hrun
            rw [FactGraph.pull_of_idle hmemo hnode hactive]
            generalize (node.compute context).run (g.pull context (id :: inProgress)) (some id)
              { p with started := p.started ++ [id] } = ending at hentered
            rcases ending with ⟨result, q⟩
            cases result with
            | error e => exact ⟨seeded', hentered.tail ⟨.fail rfl, hkept⟩⟩
            | ok value => exact ⟨seeded', hentered.tail ⟨.complete rfl, hkept⟩⟩
termination_by (g.idle inProgress).length
decreasing_by exact FactGraph.length_idle_cons_lt hnode hactive

/-- What resolution gives for a node is how its question may be answered. -/
theorem returns_pull {id : String} (hask : m.activity = .asking id) (context : γ) :
    ∃ n, Returns g m n (g.pull context m.inProgress id m.progress).1 ∧
      n.progress = (g.pull context m.inProgress id m.progress).2 := by
  rcases m with ⟨activity, callers, inProgress, p, seeded⟩
  cases hask
  rcases within_pull g context inProgress id callers p seeded with ⟨seeded', hwithin⟩
  exact ⟨_, ⟨hwithin, rfl, rfl⟩, rfl⟩

/-- The moments from the start of a program end with what the program is performed to. -/
theorem reaches_perform (g : FactGraph γ) (context : γ)
    (program : Pull (Except GraphError Json)) :
    ∃ seeded,
      Reaches g (start program)
        { activity := .running none (.done (g.perform context program {}).1)
          progress := (g.perform context program {}).2
          seeded := seeded } := by
  rcases within_run rfl (within_pull g context []) program [] {} [] with ⟨seeded, hwithin⟩
  exact ⟨seeded, hwithin.reaches⟩

end Run

/-!
# The record of a resolution

Only four steps touch the record: setting a value, and the start and the two ends of a
computation.  All others leave the nodes in progress, the progress and the nodes that
are being computed as they are.
-/

/-- A moment whose record is right: the nodes in progress are those that are being computed, all of
them different and declared; the complete nodes are different and declared too, and not in progress;
and values are known of just the complete nodes and of those whose values were set. -/
structure Consistent (g : FactGraph γ) (m : Moment) : Prop where
  inProgress_eq : m.inProgress = m.computing
  inProgress_nodup : m.inProgress.Nodup
  inProgress_declared : ∀ id ∈ m.inProgress, g.contains id = true
  order_nodup : m.progress.order.Nodup
  order_declared : ∀ id ∈ m.progress.order, g.contains id = true
  order_apart : ∀ id ∈ m.progress.order, id ∉ m.inProgress
  known_iff : ∀ id, m.progress.memo.contains id = true ↔
    id ∈ m.seeded ∨ id ∈ m.progress.order

namespace Consistent

variable {g : FactGraph γ} {m n : Moment}

theorem start (g : FactGraph γ) (program : Pull (Except GraphError Json)) :
    Consistent g (start program) where
  inProgress_eq := rfl
  inProgress_nodup := List.nodup_nil
  inProgress_declared := fun id hid => absurd hid List.not_mem_nil
  order_nodup := List.nodup_nil
  order_declared := fun id hid => absurd hid List.not_mem_nil
  order_apart := fun id hid => absurd hid List.not_mem_nil
  known_iff := by
    intro id
    constructor
    · intro hknown
      cases hknown
    · intro hid
      rcases hid with hseeded | horder
      · cases hseeded
      · cases horder

theorem of_same (h : m.Consistent g) (hcomputing : n.computing = m.computing)
    (hinProgress : n.inProgress = m.inProgress) (hprogress : n.progress = m.progress)
    (hseeded : n.seeded = m.seeded) : n.Consistent g := by
  constructor
  · rw [hinProgress, hcomputing]
    exact h.inProgress_eq
  · rw [hinProgress]
    exact h.inProgress_nodup
  · rw [hinProgress]
    exact h.inProgress_declared
  · rw [hprogress]
    exact h.order_nodup
  · rw [hprogress]
    exact h.order_declared
  · rw [hprogress, hinProgress]
    exact h.order_apart
  · rw [hprogress, hseeded]
    exact h.known_iff

/-- Setting a value does no harm to a node that is in progress. -/
theorem seed (h : m.Consistent g) (id : String) (value : Json) :
    Consistent g
      { m with
        progress := { m.progress with memo := m.progress.memo.insert id value }
        seeded := m.seeded ++ [id] } where
  inProgress_eq := h.inProgress_eq
  inProgress_nodup := h.inProgress_nodup
  inProgress_declared := h.inProgress_declared
  order_nodup := h.order_nodup
  order_declared := h.order_declared
  order_apart := h.order_apart
  known_iff := by
    intro other
    rw [Table.contains_insert_iff, h.known_iff other, List.mem_append, List.mem_singleton,
      or_left_comm, or_assoc]

theorem enter (h : m.Consistent g) {id : String} {node : Node γ}
    (hask : m.activity = .asking id) (hmemo : m.progress.memo.get? id = none)
    (hnode : g.nodes.get? id = some node) (hidle : id ∉ m.inProgress)
    (program : Pull (Except GraphError Json)) :
    Consistent g
      { m with
        activity := .running (some id) program
        inProgress := id :: m.inProgress
        progress := { m.progress with started := m.progress.started ++ [id] } } := by
  have hunknown : m.progress.memo.contains id = false := by
    rw [Table.contains, hmemo]
    rfl
  have hnew : id ∉ m.progress.order := by
    intro hmem
    have hknown := (h.known_iff id).mpr (Or.inr hmem)
    rw [hunknown] at hknown
    cases hknown
  constructor
  · have hcomputing := h.inProgress_eq
    unfold computing at hcomputing
    rw [hask] at hcomputing
    exact congrArg (id :: ·) hcomputing
  · exact List.nodup_cons.mpr ⟨hidle, h.inProgress_nodup⟩
  · intro other hother
    rcases List.mem_cons.mp hother with heq | hmem
    · rw [heq, FactGraph.contains, Table.contains, hnode]
      rfl
    · exact h.inProgress_declared other hmem
  · exact h.order_nodup
  · exact h.order_declared
  · intro other hother hmem
    rcases List.mem_cons.mp hmem with heq | hinProgress
    · exact hnew (heq ▸ hother)
    · exact h.order_apart other hother hinProgress
  · exact h.known_iff

/-- The node whose program runs is the one that was started last. -/
theorem inProgress_eq_cons (h : m.Consistent g) {id : String}
    {program : Pull (Except GraphError Json)} (hrun : m.activity = .running (some id) program) :
    m.inProgress = id :: m.callers.filterMap Caller.node := by
  rw [h.inProgress_eq, computing, hrun]
  rfl

theorem fail (h : m.Consistent g) {id : String} {program : Pull (Except GraphError Json)}
    (hrun : m.activity = .running (some id) program) (answer : Except GraphError Json) :
    Consistent g { m with activity := .answering answer, inProgress := m.inProgress.tail } where
  inProgress_eq := by
    rw [h.inProgress_eq_cons hrun]
    rfl
  inProgress_nodup := h.inProgress_nodup.tail
  inProgress_declared := fun other hother =>
    h.inProgress_declared other (List.mem_of_mem_tail hother)
  order_nodup := h.order_nodup
  order_declared := h.order_declared
  order_apart := fun other hother hmem => h.order_apart other hother (List.mem_of_mem_tail hmem)
  known_iff := h.known_iff

theorem complete (h : m.Consistent g) {id : String} {program : Pull (Except GraphError Json)}
    (hrun : m.activity = .running (some id) program) (value : Json) :
    Consistent g
      { m with
        activity := .answering (.ok value)
        inProgress := m.inProgress.tail
        progress := { m.progress with
          order := m.progress.order ++ [id]
          memo := m.progress.memo.insert id value } } := by
  have hended := h.fail hrun (.ok value)
  have hinProgress := h.inProgress_eq_cons hrun
  have hmem : id ∈ m.inProgress := by
    rw [hinProgress]
    exact List.mem_cons_self
  have hopen : id ∉ m.progress.order := fun horder => h.order_apart id horder hmem
  constructor
  · exact hended.inProgress_eq
  · exact hended.inProgress_nodup
  · exact hended.inProgress_declared
  · rw [← List.concat_eq_append]
    exact h.order_nodup.concat hopen
  · intro other hother
    rcases List.mem_append.mp hother with horder | hlast
    · exact h.order_declared other horder
    · rw [List.mem_singleton.mp hlast]
      exact h.inProgress_declared id hmem
  · intro other hother htail
    rcases List.mem_append.mp hother with horder | hlast
    · exact hended.order_apart other horder htail
    · have hnodup := h.inProgress_nodup
      rw [hinProgress] at hnodup htail
      rw [List.mem_singleton.mp hlast] at htail
      exact (List.nodup_cons.mp hnodup).1 htail
  · intro other
    rw [Table.contains_insert_iff, h.known_iff other, List.mem_append, List.mem_singleton]
    exact or_left_comm.trans (or_congr_right or_comm)

theorem step (h : m.Consistent g) (hstep : Step g m n) :
    n.Consistent g := by
  cases hstep with
  | @ask node id next hrun =>
      refine h.of_same ?_ rfl rfl rfl
      unfold computing
      rw [hrun]
      cases node <;> rfl
  | @seed node id value next hrun =>
      refine (h.seed id value).of_same ?_ rfl rfl rfl
      unfold computing
      rw [hrun]
      rfl
  | current hrun | look hrun =>
      refine h.of_same ?_ rfl rfl rfl
      unfold computing
      rw [hrun]
      rfl
  | known hask | undeclared hask | cyclic hask =>
      refine h.of_same ?_ rfl rfl rfl
      unfold computing
      rw [hask]
      rfl
  | enter program hask hmemo hnode hidle => exact h.enter hask hmemo hnode hidle program
  | complete hrun => exact h.complete hrun _
  | fail hrun => exact h.fail hrun _
  | @resume answer caller callers hanswer hcallers =>
      refine h.of_same ?_ rfl rfl rfl
      unfold computing
      rw [hanswer, hcallers]
      rcases caller with ⟨node, resume⟩
      cases node <;> rfl

theorem of_reaches {program : Pull (Except GraphError Json)}
    (hreaches : Reaches g (Moment.start program) m) : m.Consistent g := by
  induction hreaches with
  | refl => exact start g program
  | tail _ hstep ih => exact ih.step hstep

end Consistent

/-!
# What is never lost

Nothing is ever taken from the complete nodes or from the known values.
-/

/-- The complete nodes of a moment are the first ones of a later moment, and what is known at the
first is known at the second. -/
structure Before (m n : Moment) : Prop where
  order_prefix : m.progress.order <+: n.progress.order
  known : ∀ id, m.progress.memo.contains id = true -> n.progress.memo.contains id = true

theorem Step.before {g : FactGraph γ} {m n : Moment} (h : Step g m n) : Before m n := by
  cases h with
  | @seed node id value next _ =>
      constructor
      · exact List.prefix_refl m.progress.order
      · intro other hother
        exact Table.contains_insert_iff.mpr (Or.inr hother)
  | @complete id value _ =>
      constructor
      · exact List.prefix_append m.progress.order [id]
      · intro other hother
        exact Table.contains_insert_iff.mpr (Or.inr hother)
  | ask | current | look | known | undeclared | cyclic | enter | fail | resume =>
      exact ⟨List.prefix_refl m.progress.order, fun _ hother => hother⟩

theorem Reaches.before {g : FactGraph γ} {m n : Moment} (h : Reaches g m n) : Before m n := by
  induction h with
  | refl => exact ⟨List.prefix_refl m.progress.order, fun _ hother => hother⟩
  | tail _ hstep ih =>
      constructor
      · exact ih.order_prefix.trans hstep.before.order_prefix
      · intro other hother
        exact hstep.before.known other (ih.known other hother)

/-!
# Every moment of every run

The program outside of all nodes stands for any sequence of questions and of values that
are set, and may go by the answers.
-/

theorem consistent_throughout {g : FactGraph γ} {program : Pull (Except GraphError Json)}
    {m : Moment} (hm : Reaches g (start program) m) :
    m.Consistent g ∧
      ∀ id, m.activity = .asking id ->
        (∀ n answer, Returns g m n answer ->
          n.inProgress = m.inProgress ∧
          m.progress.order <+: n.progress.order ∧
          ∀ other, m.progress.memo.contains other = true ->
            n.progress.memo.contains other = true) ∧
        ∀ context, ∃ n,
          Returns g m n (g.pull context m.inProgress id m.progress).1 ∧
          n.progress = (g.pull context m.inProgress id m.progress).2 := by
  have hconsistent := Consistent.of_reaches hm
  refine ⟨hconsistent, fun id hask => ⟨?_, returns_pull hask⟩⟩
  intro n answer hreturns
  have hreaches := hreturns.within.reaches
  have hbefore := Reaches.before hreaches
  refine ⟨?_, hbefore.order_prefix, hbefore.known⟩
  calc n.inProgress
      = n.computing := (Consistent.of_reaches (hm.trans hreaches)).inProgress_eq
    _ = m.computing := by rw [computing, computing, hreturns.activity, hreturns.callers, hask]; rfl
    _ = m.inProgress := hconsistent.inProgress_eq.symm

/-- A node that fails when it is computed first and not when it is computed again, asked for by
one that has set its own value in between. -/
theorem consistent_throughout_seeding :
    let again : Except GraphError Json -> Pull (Except GraphError Json)
      | .ok value => .done (.ok value)
      | .error _ => .seed "a" (.bool true) (.get "b" .done)
    let g : FactGraph Unit :=
      { nodes := [
          ("a", { id := "a", compute := fun _ => .get "b" again }),
          ("b", { id := "b", compute := fun _ => .get "a" .done })] }
    let m : Moment :=
      { activity := .asking "b"
        callers := [⟨some "a", .done⟩, ⟨none, .done⟩]
        inProgress := ["a"]
        progress := { memo := [("a", .bool true)], started := ["a", "b"] }
        seeded := ["a"] }
    let n : Moment :=
      { m with
        activity := .answering (.ok .null)
        progress :=
          { memo := [("a", .bool true), ("b", .null)]
            order := ["b"]
            started := ["a", "b", "b"] } }
    Reaches g (start (.get "a" .done)) m ∧
      m.Consistent g ∧
      Returns g m n (.ok .null) ∧
      n.inProgress = m.inProgress ∧
      m.progress.order <+: n.progress.order := by
  intro again g m n
  have hb : g.nodes.get? "b" = some { id := "b", compute := fun _ => .get "a" .done } := rfl
  have hreaches : Reaches g (start (.get "a" .done)) m := by
    refine .head (.ask rfl) (.head (.enter (.get "b" again) rfl rfl rfl (by decide)) ?_)
    refine .head (.ask rfl) (.head (.enter (.get "a" .done) rfl rfl hb (by decide)) ?_)
    refine .head (.ask rfl) (.head (.cyclic rfl rfl rfl (by decide)) ?_)
    refine .head (.resume rfl rfl) (.head (.fail rfl) ?_)
    refine .head (.resume rfl rfl) (.head (.seed rfl) ?_)
    exact .single (.ask rfl)
  have hreturns : Returns g m n (.ok .null) := by
    refine ⟨?_, rfl, rfl⟩
    refine .head ⟨.enter (.done (.ok .null)) rfl rfl hb (by decide), List.suffix_refl _⟩ ?_
    exact .single ⟨@Step.complete _ _ _ "b" .null rfl, List.suffix_refl _⟩
  rcases consistent_throughout hreaches with ⟨hconsistent, hcalls⟩
  rcases (hcalls "b" rfl).1 n _ hreturns with ⟨hinProgress, horder, _⟩
  exact ⟨hreaches, hconsistent, hreturns, hinProgress, horder⟩

end Moment
end Reckoner
