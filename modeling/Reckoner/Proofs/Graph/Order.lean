import Reckoner.Proofs.Graph.Recompute
import Mathlib.Data.List.Permutation
import Mathlib.Logic.Relation

/-!
# The order of computation

A resolution starts the computation of every node at most once.  If it succeeds, the
nodes that it has started are those that the questions lead to, and each is complete
after all nodes that it has pulled.

What carries the proof is which nodes are where.  A node that was started is either
being computed or complete, and the values that are known are those of the complete
nodes.  So a node that is computed anew was never started before.  This only fails
once there has been an error, and then nothing is started any more.
-/

namespace Reckoner

namespace Pull

variable {α : Type}

/-- Programs that end in an error without asking for anything. -/
inductive Fails : Pull (Except GraphError α) -> Prop where
  | done (e : GraphError) : Fails (.done (.error e))
  | current {next : Option String -> Pull (Except GraphError α)} :
      (∀ node, Fails (next node)) -> Fails (.current next)
  | look {next : List String -> Table Json -> Pull (Except GraphError α)} :
      (∀ order memo, Fails (next order memo)) -> Fails (.look next)

/-- Programs that pass on every error that they are answered, as it is or inside another one, and
set no values. They may look at what is known. -/
inductive Forwards : Pull (Except GraphError α) -> Prop where
  | done (result : Except GraphError α) : Forwards (.done result)
  | get {id : String} {next : Except GraphError Json -> Pull (Except GraphError α)} :
      (∀ e, Fails (next (.error e))) ->
      (∀ value, Forwards (next (.ok value))) ->
      Forwards (.get id next)
  | current {next : Option String -> Pull (Except GraphError α)} :
      (∀ node, Forwards (next node)) -> Forwards (.current next)
  | look {next : List String -> Table Json -> Pull (Except GraphError α)} :
      (∀ order memo, Forwards (next order memo)) -> Forwards (.look next)

theorem Fails.run_eq {program : Pull (Except GraphError α)} (h : program.Fails)
    (ask : String -> Progress -> Except GraphError Json × Progress) (node : Option String)
    (p : Progress) : ∃ e, program.run ask node p = (.error e, p) := by
  induction h with
  | done e => exact ⟨e, rfl⟩
  | current _ ih => exact ih node
  | look _ ih => exact ih p.order p.memo

/-- The questions that a program asks when it is run, with the progress that each of them
meets. -/
def questions (ask : String -> Progress -> Except GraphError Json × Progress)
    (node : Option String) : Pull α -> Progress -> List (String × Progress)
  | .done _, _ => []
  | .get id next, p => (id, p) :: questions ask node (next (ask id p).1) (ask id p).2
  | .seed id value next, p =>
      questions ask node next { p with memo := p.memo.insert id value }
  | .current next, p => questions ask node (next node) p
  | .look next, p => questions ask node (next p.order p.memo) p

end Pull

namespace FactGraph

variable {γ : Type}

def Forwarding (g : FactGraph γ) (context : γ) : Prop :=
  ∀ id node, g.nodes.get? id = some node -> (node.compute context).Forwards

/-!
# The pulls of a run
-/

def pulled (g : FactGraph γ) (context : γ) (active : List String) (id : String) (p : Progress) :
    List (String × String) :=
  match p.memo.get? id with
  | some _ => []
  | none =>
      match _found : g.nodes.get? id with
      | none => []
      | some node =>
          if _isIdle : id ∈ active then
            []
          else
            let questions := (node.compute context).questions (g.pull context (id :: active))
              (some id) { p with started := p.started ++ [id] }
            questions.map (fun question => (id, question.1)) ++
              questions.flatMap fun question =>
                g.pulled context (id :: active) question.1 question.2
termination_by (g.idle active).length
decreasing_by exact length_idle_cons_lt _found _isIdle

def pulledBy {α : Type} (g : FactGraph γ) (context : γ) (program : Pull α) (p : Progress) :
    List (String × String) :=
  (program.questions (g.pull context []) none p).flatMap fun question =>
    g.pulled context [] question.1 question.2

def pulledFor (g : FactGraph γ) (context : γ) (ids : List String) : List (String × String) :=
  g.pulledBy context (values ids).run {}

abbrev Along (pulls : List (String × String)) : String -> String -> Prop :=
  Relation.ReflTransGen fun a b => (a, b) ∈ pulls

theorem Along.mono {pulls more : List (String × String)} (hsubset : pulls ⊆ more) {a b : String}
    (h : Along pulls a b) : Along more a b :=
  Relation.ReflTransGen.mono (fun _ _ hpull => hsubset hpull) _ _ h

theorem pulled_of_known {g : FactGraph γ} {p : Progress} {id : String} {value : Json}
    (hmemo : p.memo.get? id = some value) (context : γ) (active : List String) :
    g.pulled context active id p = [] := by
  rw [pulled, hmemo]

theorem pulled_of_idle {g : FactGraph γ} {p : Progress} {id : String} {node : Node γ}
    (hmemo : p.memo.get? id = none) (hnode : g.nodes.get? id = some node)
    {active : List String} (hidle : id ∉ active) (context : γ) :
    let questions := (node.compute context).questions (g.pull context (id :: active))
      (some id) { p with started := p.started ++ [id] }
    g.pulled context active id p =
      questions.map (fun question => (id, question.1)) ++
        questions.flatMap fun question =>
          g.pulled context (id :: active) question.1 question.2 := by
  rw [pulled, hmemo]
  simp only
  split
  · simp_all
  · rename_i found hfound
    rw [dif_neg hidle]
    have hsame : found = node := Option.some.inj (hfound.symm.trans hnode)
    rw [hsame]

end FactGraph

namespace Progress

open FactGraph

/-!
# Which nodes are where
-/

/-- The progress of a resolution without errors in which some nodes are being computed. -/
structure Orderly (active : List String) (p : Progress) : Prop where
  started_nodup : p.started.Nodup
  order_nodup : p.order.Nodup
  started_iff : ∀ id, id ∈ p.started ↔ id ∈ active ∨ id ∈ p.order
  known_iff : ∀ id, p.memo.get? id ≠ none ↔ id ∈ p.order
  open_active : ∀ id ∈ active, id ∉ p.order

theorem orderly_empty : Orderly [] {} where
  started_nodup := List.nodup_nil
  order_nodup := List.nodup_nil
  started_iff := by simp
  known_iff := fun id => ⟨fun h => absurd rfl h, fun h => nomatch h⟩
  open_active := fun id h => nomatch h

theorem Orderly.start {active : List String} {p : Progress} (h : p.Orderly active) {id : String}
    (hmemo : p.memo.get? id = none) (hidle : id ∉ active) :
    Orderly (id :: active) { p with started := p.started ++ [id] } := by
  have hopen : id ∉ p.order := by
    intro hmem
    exact (h.known_iff id).mpr hmem hmemo
  have hnew : id ∉ p.started := by
    intro hmem
    rcases (h.started_iff id).mp hmem with hactive | horder
    · exact hidle hactive
    · exact hopen horder
  constructor
  · rw [← List.concat_eq_append]
    exact h.started_nodup.concat hnew
  · exact h.order_nodup
  · intro other
    rw [List.mem_append, List.mem_singleton, h.started_iff other, List.mem_cons,
      or_comm, or_assoc]
  · exact h.known_iff
  · intro other hother
    rcases List.mem_cons.mp hother with heq | hmem
    · rw [heq]
      exact hopen
    · exact h.open_active other hmem

/-- The node that was started last is complete. -/
theorem Orderly.finish {active : List String} {id : String} {q : Progress}
    (h : q.Orderly (id :: active)) (hidle : id ∉ active) (value : Json) :
    Orderly active { q with order := q.order ++ [id], memo := q.memo.insert id value } := by
  have hopen : id ∉ q.order := h.open_active id List.mem_cons_self
  constructor
  · exact h.started_nodup
  · rw [← List.concat_eq_append]
    exact h.order_nodup.concat hopen
  · intro other
    rw [h.started_iff other, List.mem_append, List.mem_singleton, List.mem_cons,
      or_assoc, or_comm, or_assoc]
  · intro other
    rw [List.mem_append, List.mem_singleton]
    by_cases hsame : id = other
    · rw [← hsame, Table.get?_insert_self]
      simp
    · rw [Table.get?_insert_of_ne _ _ hsame, h.known_iff other]
      have hne : ¬ other = id := fun heq => hsame heq.symm
      simp [hne]
  · intro other hother hmem
    rcases List.mem_append.mp hmem with horder | hlast
    · exact h.open_active other (List.mem_cons_of_mem id hother) horder
    · rw [List.mem_singleton.mp hlast] at hother
      exact hidle hother

/-!
# What a run adds
-/

/-- Without an error, asking for some nodes completes them after all nodes pulled for them, and
starts only nodes that they lead to. -/
structure Advances (active : List String) (roots : List String)
    (pulls : List (String × String)) (p q : Progress) : Prop where
  orderly : q.Orderly active
  later : p.order <+: q.order
  complete : ∀ root ∈ roots, root ∈ q.order
  ordered : ∀ a b, (a, b) ∈ pulls -> [b, a].Sublist q.order
  reached : ∀ id ∈ q.started, id ∈ p.started ∨ ∃ root ∈ roots, Along pulls root id

namespace Advances

variable {active roots : List String} {pulls : List (String × String)} {p q r : Progress}

theorem refl (h : p.Orderly active) : Advances active [] [] p p where
  orderly := h
  later := List.prefix_refl p.order
  complete := fun _ hroot => nomatch hroot
  ordered := fun _ _ hpull => nomatch hpull
  reached := fun _ hid => .inl hid

theorem of_complete (h : p.Orderly active) {id : String} (hid : id ∈ p.order) :
    Advances active [id] [] p p where
  orderly := h
  later := List.prefix_refl p.order
  complete := by
    intro root hroot
    rw [List.mem_singleton.mp hroot]
    exact hid
  ordered := fun _ _ hpull => nomatch hpull
  reached := fun _ hid => .inl hid

theorem append {more : List String} {further : List (String × String)}
    (h : Advances active roots pulls p q) (hmore : Advances active more further q r) :
    Advances active (roots ++ more) (pulls ++ further) p r where
  orderly := hmore.orderly
  later := h.later.trans hmore.later
  complete := by
    intro root hroot
    rcases List.mem_append.mp hroot with hfirst | hrest
    · exact hmore.later.subset (h.complete root hfirst)
    · exact hmore.complete root hrest
  ordered := by
    intro a b hpull
    rcases List.mem_append.mp hpull with hfirst | hrest
    · exact (h.ordered a b hfirst).trans hmore.later.sublist
    · exact hmore.ordered a b hrest
  reached := by
    intro id hid
    rcases hmore.reached id hid with hbefore | ⟨root, hroot, halong⟩
    · rcases h.reached id hbefore with hstart | ⟨root, hroot, halong⟩
      · exact .inl hstart
      · exact .inr ⟨root, List.mem_append_left more hroot,
          halong.mono (List.subset_append_left pulls further)⟩
    · exact .inr ⟨root, List.mem_append_right roots hroot,
        halong.mono (List.subset_append_right pulls further)⟩

/-- A node is complete after the nodes that it has asked for. -/
theorem finish {id : String}
    (h : Advances (id :: active) roots pulls { p with started := p.started ++ [id] } q)
    (hidle : id ∉ active) (value : Json) :
    Advances active [id] (roots.map (fun root => (id, root)) ++ pulls) p
      { q with order := q.order ++ [id], memo := q.memo.insert id value } where
  orderly := h.orderly.finish hidle value
  later := h.later.trans (List.prefix_append q.order [id])
  complete := by
    intro root hroot
    exact List.mem_append_right q.order hroot
  ordered := by
    intro a b hpull
    rcases List.mem_append.mp hpull with hown | hinner
    · obtain ⟨root, hroot, heq⟩ := List.mem_map.mp hown
      cases heq
      exact (List.singleton_sublist.mpr (h.complete b hroot)).append (List.Sublist.refl [id])
    · exact (h.ordered a b hinner).trans (List.sublist_append_left q.order [id])
  reached := by
    intro other hother
    rcases h.reached other hother with hstart | ⟨root, hroot, halong⟩
    · rcases List.mem_append.mp hstart with hbefore | hself
      · exact .inl hbefore
      · exact .inr ⟨id, List.mem_singleton_self id, by
          rw [List.mem_singleton.mp hself]⟩
    · have hown : (id, root) ∈ roots.map (fun root => (id, root)) ++ pulls :=
        List.mem_append_left pulls (List.mem_map_of_mem hroot)
      have hinner := halong.mono (List.subset_append_right (roots.map fun root => (id, root)) pulls)
      exact .inr ⟨id, List.mem_singleton_self id, .head hown hinner⟩

theorem mem_order_of_along (h : Advances active roots pulls p q) {root id : String}
    (hroot : root ∈ q.order) (halong : Along pulls root id) : id ∈ q.order := by
  induction halong with
  | refl => exact hroot
  | @tail a b _ hpull _ =>
      have hboth : [b, a].Sublist q.order := h.ordered a b hpull
      exact hboth.subset List.mem_cons_self

/-- When nothing is being computed, the nodes that were started are all complete. -/
theorem mem_order_iff_started (h : Advances [] roots pulls p q) (id : String) :
    id ∈ q.order ↔ id ∈ q.started := by
  rw [h.orderly.started_iff id]
  simp

theorem started_iff_along (h : Advances [] roots pulls {} q) (id : String) :
    id ∈ q.started ↔ ∃ root ∈ roots, Along pulls root id := by
  constructor
  · intro hid
    rcases h.reached id hid with hnothing | hroot
    · cases hnothing
    · exact hroot
  · rintro ⟨root, hroot, halong⟩
    exact (h.mem_order_iff_started id).mp (h.mem_order_of_along (h.complete root hroot) halong)

end Advances

/-- What asking for some nodes does to the progress. After an error all that is left is that no
node was started twice. -/
def Ends {α : Type} (active roots : List String) (pulls : List (String × String))
    (p : Progress) : Except GraphError α × Progress -> Prop
  | (.ok _, q) => Advances active roots pulls p q
  | (.error _, q) => q.started.Nodup

theorem Ends.started_nodup {α : Type} {active roots : List String}
    {pulls : List (String × String)} {p q : Progress} {result : Except GraphError α}
    (h : Ends active roots pulls p (result, q)) : q.started.Nodup := by
  cases result with
  | error e => exact h
  | ok value => exact Advances.orderly h |>.started_nodup

end Progress

namespace FactGraph

open Progress

variable {γ : Type}

/-!
# Running programs
-/

theorem run_ends {α : Type} {active : List String}
    {ask : String -> Progress -> Except GraphError Json × Progress}
    {log : String -> Progress -> List (String × String)}
    (hask : ∀ id p, p.Orderly active -> Ends active [id] (log id p) p (ask id p))
    {program : Pull (Except GraphError α)} (hprogram : program.Forwards)
    (node : Option String) {p : Progress} (hp : p.Orderly active) :
    Ends active ((program.questions ask node p).map Prod.fst)
      ((program.questions ask node p).flatMap fun question => log question.1 question.2) p
      (program.run ask node p) := by
  induction hprogram generalizing p with
  | done result =>
      cases result with
      | error e => exact hp.started_nodup
      | ok value => exact Advances.refl hp
  | @get id next hpass _ ih =>
      have hfirst := hask id p hp
      simp only [Pull.run, Pull.questions, List.map_cons, List.flatMap_cons]
      generalize ask id p = first at hfirst
      rcases first with ⟨answer, q⟩
      cases answer with
      | error e =>
          obtain ⟨e', hfails⟩ := (hpass e).run_eq ask node q
          simp only [hfails]
          exact hfirst
      | ok value =>
          have hq : Advances active [id] (log id p) p q := hfirst
          have hrest := ih value hq.orderly
          generalize (next (.ok value)).run ask node q = last at hrest
          rcases last with ⟨result, r⟩
          cases result with
          | error e => exact hrest
          | ok value => exact hq.append hrest
  | current _ ih => exact ih node hp
  | look _ ih => exact ih p.order p.memo hp

theorem pull_ends {g : FactGraph γ} {context : γ} (hforwarding : g.Forwarding context)
    (active : List String) (id : String) (p : Progress) (hp : p.Orderly active) :
    Ends active [id] (g.pulled context active id p) p (g.pull context active id p) := by
  cases hmemo : p.memo.get? id with
  | some value =>
      have hknown : p.memo.get? id ≠ none := by
        rw [hmemo]
        exact Option.some_ne_none value
      rw [pull_of_known hmemo, pulled_of_known hmemo]
      exact Advances.of_complete hp ((hp.known_iff id).mp hknown)
  | none =>
      cases hnode : g.nodes.get? id with
      | none =>
          rw [pull_of_undeclared hmemo hnode]
          exact hp.started_nodup
      | some node =>
          by_cases hactive : id ∈ active
          · rw [pull_of_active hmemo hnode hactive]
            exact hp.started_nodup
          · -- one more node is active inside, so fewer are left to become so
            have hinner := pull_ends hforwarding (id :: active)
            have hend := run_ends hinner (hforwarding id node hnode) (some id)
              (hp.start hmemo hactive)
            rw [pull_of_idle hmemo hnode hactive, pulled_of_idle hmemo hnode hactive]
            generalize (node.compute context).questions (g.pull context (id :: active)) (some id)
              { p with started := p.started ++ [id] } = questions at hend
            generalize (node.compute context).run (g.pull context (id :: active)) (some id)
              { p with started := p.started ++ [id] } = ending at hend
            rcases ending with ⟨result, q⟩
            cases result with
            | error e => exact hend
            | ok value =>
                have hown := Advances.finish hend hactive value
                rw [List.map_map] at hown
                exact hown
termination_by (g.idle active).length
decreasing_by exact length_idle_cons_lt hnode hactive

/-!
# Asking for nodes one after another
-/

def valuesFrom (known : Table Json) (ids : List String) : ExceptT GraphError Pull (Table Json) :=
  ids.foldlM (fun known id => do return known.insert id (← Pull.value id)) known

theorem run_valuesFrom_cons (known : Table Json) (id : String) (ids : List String) :
    (valuesFrom known (id :: ids)).run = .get id fun
      | .ok value => (valuesFrom (known.insert id value) ids).run
      | .error e => .done (.error e) := by
  show Pull.get id _ = Pull.get id _
  congr 1
  funext answer
  cases answer <;> rfl

theorem forwards_valuesFrom (known : Table Json) (ids : List String) :
    (valuesFrom known ids).run.Forwards := by
  induction ids generalizing known with
  | nil => exact .done (.ok known)
  | cons id ids ih =>
      rw [run_valuesFrom_cons]
      exact .get (fun e => .done e) fun value => ih (known.insert id value)

theorem questions_valuesFrom {ask : String -> Progress -> Except GraphError Json × Progress}
    {node : Option String} {known table : Table Json} {ids : List String} {p : Progress}
    (hvalues : ((valuesFrom known ids).run.run ask node p).1 = .ok table) :
    ((valuesFrom known ids).run.questions ask node p).map Prod.fst = ids := by
  induction ids generalizing known p with
  | nil => rfl
  | cons id ids ih =>
      rw [run_valuesFrom_cons] at hvalues ⊢
      simp only [Pull.run, Pull.questions, List.map_cons] at hvalues ⊢
      cases hanswer : (ask id p).1 with
      | error e =>
          rw [hanswer] at hvalues
          cases hvalues
      | ok value =>
          rw [hanswer] at hvalues
          rw [ih hvalues]

theorem resolve_orderly {g : FactGraph γ} {context : γ} (hforwarding : g.Forwarding context)
    (ids : List String) :
    let p := (g.resolve context ids).2
    let pulls := g.pulledFor context ids
    p.started.Nodup ∧
      ((∃ known, (g.resolve context ids).1 = .ok known) ->
        (∀ id, id ∈ p.started ↔ ∃ root ∈ ids, Along pulls root id) ∧
        p.order.Nodup ∧
        (∀ id, id ∈ p.order ↔ id ∈ p.started) ∧
        ∀ a b, (a, b) ∈ pulls -> [b, a].Sublist p.order) := by
  intro p pulls
  have hends : Ends [] (((values ids).run.questions (g.pull context []) none {}).map Prod.fst)
      pulls {} (g.resolve context ids) :=
    run_ends (pull_ends hforwarding []) (forwards_valuesFrom [] ids) none orderly_empty
  refine ⟨hends.started_nodup, ?_⟩
  rintro ⟨known, hknown⟩
  have hadvances : Advances [] ids pulls {} p := by
    have hasked : ((values ids).run.questions (g.pull context []) none {}).map Prod.fst = ids :=
      questions_valuesFrom hknown
    have hpair : g.resolve context ids = (.ok known, p) := Prod.ext hknown rfl
    rw [hasked, hpair] at hends
    exact hends
  exact ⟨hadvances.started_iff_along, hadvances.orderly.order_nodup,
    hadvances.mem_order_iff_started, hadvances.ordered⟩

/-- A node that chooses what to pull second by the answer to its first pull, and so pulls a node
that was asked for before. -/
theorem resolve_orderly_shared :
    let chosen : Except GraphError Json -> Pull (Except GraphError Json)
      | .ok (.bool true) => .get "c" .done
      | .ok value => .done (.ok value)
      | .error e => .done (.error e)
    let g : FactGraph Unit :=
      { nodes := [
          ("a", { id := "a", compute := fun _ => .get "b" chosen }),
          ("b", { id := "b", compute := fun _ => .get "d" .done }),
          ("c", { id := "c", compute := fun _ => .look fun _ _ => .get "d" .done }),
          ("d", { id := "d", compute := fun _ => .done (.ok (.bool true)) })] }
    let p := (g.resolve () ["c", "a"]).2
    g.Forwarding () ∧
      p.started.Nodup ∧
      (∀ id, id ∈ p.started ↔ ∃ root ∈ ["c", "a"], Along (g.pulledFor () ["c", "a"]) root id) ∧
      p.started = ["c", "d", "a", "b"] ∧
      p.order = ["d", "c", "b", "a"] := by
  intro chosen g p
  have hpass (id : String) : (Pull.get id .done).Forwards :=
    .get (fun e => .done e) fun value => .done (.ok value)
  have hchosen : (Pull.get "b" chosen).Forwards := by
    refine .get (fun e => .done e) fun value => ?_
    unfold chosen
    split
    · exact hpass "c"
    · exact .done _
    · exact .done _
  have hforwarding : g.Forwarding () := by
    intro id node hnode
    simp only [g, Table.get?] at hnode
    split at hnode
    · cases hnode
      exact hchosen
    split at hnode
    · cases hnode
      exact hpass "d"
    split at hnode
    · cases hnode
      exact .look fun _ _ => hpass "d"
    split at hnode
    · cases hnode
      exact .done _
    · cases hnode
  have hresult : g.resolve () ["c", "a"] =
      (.ok [("a", .bool true), ("c", .bool true)], p) := by
    subst p g chosen
    cbv
  obtain ⟨hstarted, hsuccess⟩ := resolve_orderly hforwarding ["c", "a"]
  obtain ⟨hreached, _⟩ := hsuccess ⟨_, congrArg Prod.fst hresult⟩
  refine ⟨hforwarding, hstarted, hreached, ?_, ?_⟩
  · subst p g chosen
    cbv
  · subst p g chosen
    cbv

end FactGraph
end Reckoner
