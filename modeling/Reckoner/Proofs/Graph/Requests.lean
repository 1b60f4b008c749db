import Reckoner.Proofs.Graph.Cycles
import Reckoner.Proofs.Graph.Moments

/-!
# Who has asked for what

The errors of a resolution name nodes: those that are missing with the node that has
asked for them, those that fail of themselves, and those on a cycle.  The names are read
off the record of the nodes in progress, while the programs that have asked wait for
each other apart from it.

What carries the proofs is where a caller comes from in the history of the run.  It is
what is left of the program with which the computation of its node was started, it asked
at an earlier moment, and it has waited ever since with the callers before it.  So each
caller waits for the node of the caller after it, and a question that closes a cycle
closes it along questions that are all open.
-/

namespace Reckoner

namespace Pull

variable {α : Type}

inductive Leads (program : Pull α) : Pull α -> Prop where
  | refl : Leads program program
  | get {id : String} {next : Except GraphError Json -> Pull α}
      (answer : Except GraphError Json) :
      Leads program (.get id next) -> Leads program (next answer)
  | seed {id : String} {value : Json} {next : Pull α} :
      Leads program (.seed id value next) -> Leads program next
  | current {next : Option String -> Pull α} (node : Option String) :
      Leads program (.current next) -> Leads program (next node)
  | look {next : List String -> Table Json -> Pull α} (order : List String) (memo : Table Json) :
      Leads program (.look next) -> Leads program (next order memo)

end Pull

namespace Moment

variable {γ : Type}

/-!
# The history of a run
-/

/-- The moments from the start of a program to one of a run, with the latest first. -/
inductive Run (g : FactGraph γ) (program : Pull (Except GraphError Json)) :
    List Moment -> Prop where
  | start : Run g program [start program]
  | step {m n : Moment} {history : List Moment} :
      Run g program (m :: history) -> Step g m n -> Run g program (n :: m :: history)

theorem Run.reaches {g : FactGraph γ} {program : Pull (Except GraphError Json)} {m : Moment}
    {history : List Moment} (h : Run g program (m :: history)) :
    Reaches g (Moment.start program) m := by
  generalize hmoments : m :: history = moments at h
  induction h generalizing m history with
  | start =>
      cases hmoments
      exact .refl
  | step _ hstep ih =>
      cases hmoments
      exact (ih rfl).tail hstep

theorem exists_run {g : FactGraph γ} {program : Pull (Except GraphError Json)} {m : Moment}
    (h : Reaches g (start program) m) : ∃ history, Run g program (m :: history) := by
  induction h with
  | refl => exact ⟨[], .start⟩
  | tail _ hstep ih =>
      rcases ih with ⟨history, hrun⟩
      exact ⟨_, hrun.step hstep⟩

/-!
# Programs and their nodes
-/

/-- The computation of a node was started with a program when some callers were waiting, and has
gone on ever since. -/
def Begun (id : String) (whole : Pull (Except GraphError Json)) (callers : List Caller)
    (history : List Moment) : Prop :=
  ∃ since begun asked earlier, history = since ++ begun :: asked :: earlier ∧
    asked.activity = .asking id ∧
    begun.activity = .running (some id) whole ∧
    begun.callers = callers ∧
    ∀ m ∈ since, callers <:+ m.callers

/-- What is left of the program that a node was started with, or of the program that is outside of
all nodes. -/
def Own (program : Pull (Except GraphError Json)) (callers : List Caller)
    (history : List Moment) : Option String -> Pull (Except GraphError Json) -> Prop
  | none, rest => program.Leads rest
  | some id, rest => ∃ whole, Begun id whole callers history ∧ whole.Leads rest

/-!
# Open questions
-/

/-- A program has asked for a node when some callers were waiting, and has itself been waiting since
then. -/
def Awaits (program : Pull (Except GraphError Json)) (caller : Caller) (callers : List Caller)
    (id : String) (history : List Moment) : Prop :=
  ∃ since asked earlier, history = since ++ asked :: earlier ∧
    asked.activity = .running caller.node (.get id caller.resume) ∧
    asked.callers = callers ∧
    Own program callers (asked :: earlier) caller.node (.get id caller.resume) ∧
    since ≠ [] ∧
    ∀ m ∈ since, caller :: callers <:+ m.callers

/-- A node has asked for another one, and its program waits for the answer. -/
def Asks (program : Pull (Except GraphError Json)) (history : List Moment) (a b : String) : Prop :=
  ∃ caller callers, caller.node = some a ∧ Awaits program caller callers b history

/-- The first of some callers waits for a node, and every other one for the node of the caller that
has asked after it. Nobody waits for the program outside of all nodes. -/
inductive Waiting (program : Pull (Except GraphError Json)) (history : List Moment) :
    Option String -> List Caller -> Prop where
  | nobody : Waiting program history none []
  | caller {caller : Caller} {callers : List Caller} {id : String} :
      Awaits program caller callers id history ->
      Waiting program history caller.node callers ->
      Waiting program history (some id) (caller :: callers)

/-- The callers of a moment wait for what goes on at it, and a program that is running is that of
its node. -/
def Linked (program : Pull (Except GraphError Json)) (history : List Moment) (m : Moment) : Prop :=
  match m.activity with
  | .running node rest =>
      Own program m.callers history node rest ∧ Waiting program history node m.callers
  | .asking id => Waiting program history (some id) m.callers
  | .answering _ => ∃ id, Waiting program history (some id) m.callers

section Linked

variable {g : FactGraph γ} {program : Pull (Except GraphError Json)} {m n : Moment}
  {history : List Moment}

/-- What a program comes to belongs to the same node, as long as its callers wait. -/
theorem Own.leads {callers : List Caller} {node : Option String}
    {before after : Pull (Except GraphError Json)} (h : Own program callers history node before)
    (hleads : ∀ whole : Pull (Except GraphError Json), whole.Leads before -> whole.Leads after)
    {since : List Moment} (hsince : ∀ m ∈ since, callers <:+ m.callers) :
    Own program callers (since ++ history) node after := by
  cases node with
  | none => exact hleads program h
  | some id =>
      rcases h with ⟨whole, ⟨between, begun, asked, earlier, rfl, hask, hrun, hcallers, hbetween⟩,
        hbefore⟩
      refine ⟨whole, ⟨since ++ between, begun, asked, earlier, ?_, hask, hrun, hcallers, ?_⟩,
        hleads whole hbefore⟩
      · rw [List.append_assoc]
      · intro m hm
        rcases List.mem_append.mp hm with hmem | hmem
        · exact hsince m hmem
        · exact hbetween m hmem

theorem Awaits.step {caller : Caller} {callers : List Caller} {id : String}
    (h : Awaits program caller callers id history) (hwithin : caller :: callers <:+ n.callers) :
    Awaits program caller callers id (n :: history) := by
  rcases h with ⟨since, asked, earlier, rfl, hasked, hcallers, hown, _, hsince⟩
  exact ⟨n :: since, asked, earlier, rfl, hasked, hcallers, hown, List.cons_ne_nil n since,
    List.forall_mem_cons.mpr ⟨hwithin, hsince⟩⟩

/-- A caller that gets its answer goes on with its program. -/
theorem Awaits.own {caller : Caller} {id : String}
    (h : Awaits program caller n.callers id history) (answer : Except GraphError Json) :
    Own program n.callers (n :: history) caller.node (caller.resume answer) := by
  rcases h with ⟨since, asked, earlier, rfl, _, _, hown, _, hsince⟩
  have hwaited : ∀ m ∈ n :: since, n.callers <:+ m.callers := by
    intro m hm
    rcases List.mem_cons.mp hm with rfl | hmem
    · exact List.suffix_refl m.callers
    · exact (List.suffix_cons caller n.callers).trans (hsince m hmem)
  exact hown.leads (fun _ => .get answer) hwaited

theorem Waiting.step {target : Option String} {callers : List Caller}
    (h : Waiting program history target callers) (hwithin : callers <:+ n.callers) :
    Waiting program (n :: history) target callers := by
  induction h with
  | nobody => exact .nobody
  | @caller caller callers id hawaits _ ih =>
      have hbefore : callers <:+ n.callers := (List.suffix_cons caller callers).trans hwithin
      exact .caller (hawaits.step hwithin) (ih hbefore)

theorem Linked.step (h : Linked program (m :: history) m) (hstep : Step g m n) :
    Linked program (n :: m :: history) n := by
  have hkept (hcallers : n.callers = m.callers) {target : Option String}
      (hwaiting : Waiting program (m :: history) target m.callers) :
      Waiting program (n :: m :: history) target n.callers := by
    have hwithin : m.callers <:+ n.callers := ⟨[], hcallers.symm⟩
    rw [hcallers]
    exact hwaiting.step hwithin
  have hnow (hcallers : n.callers = m.callers) : ∀ k ∈ [n], m.callers <:+ k.callers := by
    intro k hk
    rw [List.mem_singleton.mp hk]
    exact ⟨[], hcallers.symm⟩
  unfold Linked at h ⊢
  -- only a question and an answer change who is waiting
  cases hstep with
  | @ask node id next hrun =>
      rw [hrun] at h
      have hmore := List.suffix_cons ⟨node, next⟩ m.callers
      refine .caller ⟨[_], m, history, rfl, hrun, rfl, h.1, List.cons_ne_nil _ _, ?_⟩
        (h.2.step hmore)
      intro k hk
      obtain rfl := List.mem_singleton.mp hk
      exact List.suffix_refl _
  | seed hrun =>
      rw [hrun] at h
      exact ⟨h.1.leads (fun _ => .seed) (hnow rfl), hkept rfl h.2⟩
  | current hrun =>
      rw [hrun] at h
      exact ⟨h.1.leads (fun _ => .current _) (hnow rfl), hkept rfl h.2⟩
  | look hrun =>
      rw [hrun] at h
      exact ⟨h.1.leads (fun _ => .look _ _) (hnow rfl), hkept rfl h.2⟩
  | known hask | undeclared hask | cyclic hask =>
      rw [hask] at h
      exact ⟨_, hkept rfl h⟩
  | enter whole hask =>
      rw [hask] at h
      exact ⟨⟨whole, ⟨[], _, m, history, rfl, hask, rfl, rfl, nofun⟩, .refl⟩, hkept rfl h⟩
  | complete hrun | fail hrun =>
      rw [hrun] at h
      exact ⟨_, hkept rfl h.2⟩
  | @resume answer caller callers hanswer hcallers =>
      rw [hanswer] at h
      rcases h with ⟨id, hwaiting⟩
      rw [hcallers] at hwaiting
      cases hwaiting with
      | caller hawaits hrest => exact ⟨hawaits.own answer, hrest.step (List.suffix_refl callers)⟩

theorem Linked.of_run (h : Run g program (m :: history)) : Linked program (m :: history) m := by
  generalize hmoments : m :: history = moments at h
  induction h generalizing m history with
  | start =>
      cases hmoments
      exact ⟨.refl, .nobody⟩
  | step _ hstep ih =>
      cases hmoments
      exact (ih rfl).step hstep

theorem linked_of_running {node : Option String} {rest : Pull (Except GraphError Json)}
    (h : Run g program (m :: history)) (hrun : m.activity = .running node rest) :
    Own program m.callers (m :: history) node rest ∧
      Waiting program (m :: history) node m.callers := by
  have hlinked := Linked.of_run h
  unfold Linked at hlinked
  rw [hrun] at hlinked
  exact hlinked

theorem waiting_of_asking {id : String} (h : Run g program (m :: history))
    (hask : m.activity = .asking id) : Waiting program (m :: history) (some id) m.callers := by
  have hlinked := Linked.of_run h
  unfold Linked at hlinked
  rw [hask] at hlinked
  exact hlinked

theorem Waiting.eq_none_iff {target : Option String} {callers : List Caller}
    (h : Waiting program history target callers) : target = none ↔ callers = [] := by
  cases h with
  | nobody => exact ⟨fun _ => rfl, fun _ => rfl⟩
  | caller =>
      constructor
      · intro hnone
        cases hnone
      · intro hnil
        cases hnil

/-- The latest node in progress is the one whose program is running. -/
theorem head?_inProgress {node : Option String} {rest : Pull (Except GraphError Json)}
    (h : Run g program (m :: history)) (hrun : m.activity = .running node rest) :
    m.inProgress.head? = node := by
  rw [(Consistent.of_reaches h.reaches).inProgress_eq, computing, hrun]
  cases node with
  | none =>
      rw [(linked_of_running h hrun).2.eq_none_iff.mp rfl]
      rfl
  | some id => rfl

/-- Among the nodes that wait, and the one that they wait for, each has asked for the one that is
listed before it. -/
theorem Waiting.isChain {target : Option String} {callers : List Caller}
    (h : Waiting program history target callers) :
    (target.toList ++ callers.filterMap Caller.node).IsChain (flip (Asks program history)) := by
  induction h with
  | nobody => exact .nil
  | @caller caller callers id hawaits hrest ih =>
      show (id :: (caller :: callers).filterMap Caller.node).IsChain _
      rcases caller with ⟨node, resume⟩
      cases node with
      | none =>
          rw [hrest.eq_none_iff.mp rfl]
          exact .singleton id
      | some other => exact List.isChain_cons_cons.mpr ⟨⟨_, callers, rfl, hawaits⟩, ih⟩

end Linked

/-!
# Errors that answer a question at once

All other errors were answered before, or are what a computation ends in.
-/

section Errors

variable {g : FactGraph γ} {program : Pull (Except GraphError Json)} {m n : Moment}
  {history : List Moment}

theorem error_of_asking {id : String} {e : GraphError} (hask : m.activity = .asking id)
    (hstep : Step g m n) (herror : n.activity = .answering (.error e)) :
    (∀ context, g.pull context m.inProgress id m.progress = (.error e, m.progress)) ∧
      ((m.progress.memo.get? id = none ∧ g.nodes.get? id = none ∧
          e = .notFound id m.inProgress.head?) ∨
        (id ∈ m.inProgress ∧ e = .cyclic (FactGraph.cycle m.inProgress id))) := by
  rcases hstep.cases_of_asking hask with ⟨value, _, rfl⟩ | ⟨hmemo, hnode, rfl⟩ |
    ⟨node, hmemo, hnode, ⟨hactive, rfl⟩ | ⟨_, whole, rfl⟩⟩
  · cases herror
  · cases herror
    exact ⟨fun context => FactGraph.pull_of_undeclared hmemo hnode context m.inProgress,
      .inl ⟨hmemo, hnode, rfl⟩⟩
  · cases herror
    exact ⟨FactGraph.pull_of_active hmemo hnode hactive, .inr ⟨hactive, rfl⟩⟩
  · cases herror

/-- Every question is asked by a program, one moment before. -/
theorem exists_ask {id : String} (h : Run g program (m :: history))
    (hask : m.activity = .asking id) :
    ∃ before earlier node next, history = before :: earlier ∧
      before.activity = .running node (.get id next) ∧ m.inProgress = before.inProgress := by
  cases h with
  | start => cases hask
  | step _ hstep =>
      cases hstep with
      | ask hrun =>
          cases hask
          exact ⟨_, _, _, _, rfl, hrun, rfl⟩
      | seed | current | look | known | undeclared | cyclic | enter | complete | fail
      | resume => cases hask

/-!
# Cycles
-/

theorem cyclic_along_requests {id : String} {path : List String}
    (hrun : Run g program (n :: m :: history)) (hask : m.activity = .asking id)
    (hpath : n.activity = .answering (.error (.cyclic path))) :
    (∀ context,
      g.pull context m.inProgress id m.progress = (.error (.cyclic path), m.progress)) ∧
      2 ≤ path.length ∧
      path.head? = some id ∧
      path.getLast? = some id ∧
      path.dropLast.Nodup ∧
      (∀ other ∈ path, g.contains other = true ∧ other ∈ m.computing) ∧
      path.IsChain (Asks program (m :: history)) := by
  rcases hrun with - | ⟨hm, hstep⟩
  have hconsistent := Consistent.of_reaches hm.reaches
  rcases error_of_asking hask hstep hpath with ⟨hpull, ⟨_, _, hmissing⟩ | ⟨hactive, hcycle⟩⟩
  · cases hmissing
  cases hcycle
  have hcomputing : m.callers.filterMap Caller.node = m.inProgress := by
    rw [hconsistent.inProgress_eq, computing, hask]
    rfl
  have hchain := (waiting_of_asking hm hask).isChain
  rw [hcomputing] at hchain
  refine ⟨hpull, ?_, rfl, List.getLast?_concat,
    FactGraph.nodup_dropLast_cycle hconsistent.inProgress_nodup id, ?_,
    FactGraph.isChain_cycle hchain hactive⟩
  · simp [FactGraph.cycle]
  · intro other hother
    have hmem := FactGraph.mem_of_mem_cycle hactive hother
    refine ⟨hconsistent.inProgress_declared other hmem, ?_⟩
    rw [← hconsistent.inProgress_eq]
    exact hmem

/-- A cycle through a node that has failed before, inside one that has met its error and has set a
value since. -/
theorem cyclic_along_requests_inside :
    let onward : Except GraphError Json -> Pull (Except GraphError Json)
      | .ok value => .done (.ok value)
      | .error _ => .seed "x" (.bool true) (.get "b" .done)
    let g : FactGraph Unit :=
      { nodes := [
          ("a", { id := "a", compute := fun _ => .get "b" onward }),
          ("b", { id := "b", compute := fun _ => .get "c" .done }),
          ("c", { id := "c", compute := fun _ => .get "b" .done })] }
    let program : Pull (Except GraphError Json) := .get "a" .done
    let m : Moment :=
      { activity := .asking "b"
        callers := [⟨some "c", .done⟩, ⟨some "b", .done⟩, ⟨some "a", .done⟩, ⟨none, .done⟩]
        inProgress := ["c", "b", "a"]
        progress := { memo := [("x", .bool true)], started := ["a", "b", "b", "c"] }
        seeded := ["x"] }
    let path := ["b", "c", "b"]
    let n : Moment := { m with activity := .answering (.error (.cyclic path)) }
    ∃ history, Run g program (n :: m :: history) ∧
      g.pull () m.inProgress "b" m.progress = (.error (.cyclic path), m.progress) ∧
      path.dropLast.Nodup ∧
      (∀ other ∈ path, g.contains other = true ∧ other ∈ m.computing) ∧
      path.IsChain (Asks program (m :: history)) := by
  intro onward g program m path n
  have hb : g.nodes.get? "b" = some { id := "b", compute := fun _ => .get "c" .done } := rfl
  have hc : g.nodes.get? "c" = some { id := "c", compute := fun _ => .get "b" .done } := rfl
  have hreaches : Reaches g (start program) m := by
    refine .head (.ask rfl) (.head (.enter (.get "b" onward) rfl rfl rfl (by decide)) ?_)
    refine .head (.ask rfl) (.head (.enter (.get "ghost" .done) rfl rfl hb (by decide)) ?_)
    refine .head (.ask rfl) (.head (.undeclared rfl rfl rfl) (.head (.resume rfl rfl) ?_))
    refine .head (.fail rfl) (.head (.resume rfl rfl) (.head (.seed rfl) ?_))
    refine .head (.ask rfl) (.head (.enter (.get "c" .done) rfl rfl hb (by decide)) ?_)
    refine .head (.ask rfl) (.head (.enter (.get "b" .done) rfl rfl hc (by decide)) ?_)
    exact .single (.ask rfl)
  have hstep : Step g m n := .cyclic rfl rfl hb (by decide)
  rcases exists_run hreaches with ⟨history, hm⟩
  have hrun : Run g program (n :: m :: history) := hm.step hstep
  rcases cyclic_along_requests hrun rfl rfl with ⟨hpull, _, _, _, hnodup, hcomputing, hchain⟩
  exact ⟨history, hrun, hpull (), hnodup, hcomputing, hchain⟩

/-!
# Missing nodes and failures
-/

theorem errors_attributed (hm : Run g program (m :: history)) :
    (∀ id n missing requestedBy,
      m.activity = .asking id ->
      Step g m n ->
      n.activity = .answering (.error (.notFound missing requestedBy)) ->
      (∀ context, g.pull context m.inProgress id m.progress =
        (.error (.notFound missing requestedBy), m.progress)) ∧
      missing = id ∧ g.contains id = false ∧ id ∉ m.seeded ∧
      ∃ before earlier next,
        history = before :: earlier ∧
        before.activity = .running requestedBy (.get id next) ∧
        Own program before.callers history requestedBy (.get id next) ∧
        (requestedBy = none ↔ before.callers = [])) ∧
    ∀ node cause next,
      m.activity = .running node ((Pull.failure cause).bind next) ->
      Own program m.callers (m :: history) node ((Pull.failure cause).bind next) ∧
      (node = none ↔ m.callers = []) ∧
      ∀ n, Step g m n ↔
        n = { m with activity := .running node (next (.failed (node.getD "") cause)) } := by
  have hconsistent := Consistent.of_reaches hm.reaches
  constructor
  · intro id n missing requestedBy hask hstep hmissing
    rcases error_of_asking hask hstep hmissing with
      ⟨hpull, ⟨hmemo, hnode, hnamed⟩ | ⟨_, hcycle⟩⟩
    · rcases exists_ask hm hask with ⟨before, earlier, node, next, rfl, hrun, hsame⟩
      rcases hm with - | ⟨hbefore, _⟩
      have hhead : m.inProgress.head? = node := hsame ▸ head?_inProgress hbefore hrun
      rw [hhead] at hnamed
      cases hnamed
      rcases linked_of_running hbefore hrun with ⟨hown, hwaiting⟩
      refine ⟨hpull, rfl, ?_, ?_, before, earlier, next, rfl, hrun, hown, hwaiting.eq_none_iff⟩
      · rw [FactGraph.contains_eq_isSome, hnode]
        rfl
      · intro hseeded
        have hknown := (hconsistent.known_iff id).mpr (.inl hseeded)
        rw [Table.contains, hmemo] at hknown
        cases hknown
    · cases hcycle
  · intro node cause next hrun
    rcases linked_of_running hm hrun with ⟨hown, hwaiting⟩
    have hstep : Step g m { m with
        activity := .running node (next (.failed (m.inProgress.head?.getD "") cause)) } :=
      .current hrun
    rw [head?_inProgress hm hrun] at hstep
    refine ⟨hown, hwaiting.eq_none_iff, fun n => ⟨fun hn => ?_, fun heq => heq ▸ hstep⟩⟩
    exact (hn.eq_of_current hrun).trans (hstep.eq_of_current hrun).symm

/-- A node that asks again for another one, which has first asked for a missing node, and then fails
of itself. -/
theorem errors_attributed_inside :
    let failing : Pull (Except GraphError Json) :=
      (Pull.failure "no b").bind fun e => .done (.error e)
    let again : Except GraphError Json -> Pull (Except GraphError Json)
      | .ok value => .done (.ok value)
      | .error _ => .get "b" fun _ => failing
    let g : FactGraph Unit :=
      { nodes := [
          ("a", { id := "a", compute := fun _ => .get "b" again }),
          ("b", { id := "b", compute := fun _ => .get "ghost" .done })] }
    let program : Pull (Except GraphError Json) := .get "a" .done
    let asked : Moment :=
      { activity := .asking "ghost"
        callers := [⟨some "b", .done⟩, ⟨some "a", again⟩, ⟨none, .done⟩]
        inProgress := ["b", "a"]
        progress := { started := ["a", "b"] } }
    let failed : Moment :=
      { activity := .running (some "a") failing
        callers := [⟨none, .done⟩]
        inProgress := ["a"]
        progress := { memo := [("b", .null)], order := ["b"], started := ["a", "b", "b"] } }
    let answered : Moment :=
      { asked with activity := .answering (.error (.notFound "ghost" (some "b"))) }
    (∃ history, Run g program (answered :: asked :: history) ∧
      g.contains "ghost" = false ∧
      ∃ before earlier next, history = before :: earlier ∧
        before.activity = .running (some "b") (.get "ghost" next)) ∧
      Reaches g answered failed ∧
      Step g failed
        { failed with activity := .running (some "a") (.done (.error (.failed "a" "no b"))) } := by
  intro failing again g program asked failed answered
  have hb : g.nodes.get? "b" = some { id := "b", compute := fun _ => .get "ghost" .done } := rfl
  have hasked : Reaches g (start program) asked := by
    refine .head (.ask rfl) (.head (.enter (.get "b" again) rfl rfl rfl (by decide)) ?_)
    refine .head (.ask rfl) (.head (.enter (.get "ghost" .done) rfl rfl hb (by decide)) ?_)
    exact .single (.ask rfl)
  have hanswer : Step g asked answered := .undeclared rfl rfl rfl
  have hfailed : Reaches g answered failed := by
    refine .head (.resume rfl rfl) (.head (.fail rfl) (.head (.resume rfl rfl) ?_))
    refine .head (.ask rfl) (.head (.enter (.done (.ok .null)) rfl rfl hb (by decide)) ?_)
    exact .head (.complete rfl) (.head (.resume rfl rfl) .refl)
  rcases exists_run hasked with ⟨history, hrun⟩
  rcases exists_run ((hasked.tail hanswer).trans hfailed) with ⟨_, hlater⟩
  rcases (errors_attributed hrun).1 "ghost" answered "ghost" (some "b") rfl hanswer rfl with
    ⟨_, _, hlacks, _, before, earlier, next, hhistory, hbefore, _⟩
  rcases (errors_attributed hlater).2 (some "a") "no b" (fun e => .done (.error e)) rfl with
    ⟨_, _, hnext⟩
  exact ⟨⟨history, hrun.step hanswer, hlacks, before, earlier, next, hhistory, hbefore⟩, hfailed,
    (hnext _).mpr rfl⟩

end Errors
end Moment
end Reckoner
