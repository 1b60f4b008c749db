import Reckoner.Graph.Resolve

/-!
# Recomputing without a memory

The value of a node can be computed by plain recursion, which keeps the nodes that
are being computed and nothing else.  Every question is then answered from scratch.
This is what resolution is measured against.
-/

namespace Reckoner

namespace Pull

variable {α : Type}

/-!
# Following a program

Without a memory the answers to a program depend on the questions alone.  There is
nothing to look at then, and nothing that setting a value could change.
-/

def follow (answer : String -> Except GraphError Json) (node : Option String) : Pull α -> α
  | .done result => result
  | .get id next => follow answer node (next (answer id))
  | .seed _ _ next => follow answer node next
  | .current next => follow answer node (next node)
  | .look next => follow answer node (next [] [])

/-- Programs that pass on every error that they are answered, and that neither set
values nor look at those that are known. -/
inductive Obedient : Pull (Except GraphError Json) -> Prop where
  | done (result : Except GraphError Json) : Obedient (.done result)
  | get {id : String} {next : Except GraphError Json -> Pull (Except GraphError Json)} :
      (∀ e, next (.error e) = .done (.error e)) ->
      (∀ value, Obedient (next (.ok value))) ->
      Obedient (.get id next)
  | current {next : Option String -> Pull (Except GraphError Json)} :
      (∀ node, Obedient (next node)) -> Obedient (.current next)

/-!
A program that ends in a value has only met values, so it ends in the same one
wherever those are answered.
-/

theorem follow_eq_ok_of_agree {program : Pull (Except GraphError Json)}
    (hprogram : program.Obedient) {answer answer' : String -> Except GraphError Json}
    (hagree : ∀ id value, answer id = .ok value -> answer' id = .ok value)
    {node : Option String} {value : Json}
    (hvalue : program.follow answer node = .ok value) :
    program.follow answer' node = .ok value := by
  induction hprogram with
  | done result => exact hvalue
  | @get id next hpass _ ih =>
      unfold follow at hvalue ⊢
      cases hanswer : answer id with
      | error e =>
          rw [hanswer, hpass e] at hvalue
          cases hvalue
      | ok found =>
          rw [hanswer] at hvalue
          rw [hagree id found hanswer]
          exact ih found hvalue
  | current _ ih => exact ih node hvalue

end Pull

namespace FactGraph

variable {γ : Type}

def Obedient (g : FactGraph γ) (context : γ) : Prop :=
  ∀ id node, g.nodes.get? id = some node -> (node.compute context).Obedient

def recompute (g : FactGraph γ) (context : γ) (active : List String) (id : String) :
    Except GraphError Json :=
  match _found : g.nodes.get? id with
  | none => .error (.notFound id active.head?)
  | some node =>
      if _isIdle : id ∈ active then
        .error (.cyclic (cycle active id))
      else
        (node.compute context).follow (fun other => g.recompute context (id :: active) other)
          (some id)
termination_by (g.idle active).length
decreasing_by exact length_idle_cons_lt _found _isIdle

/-!
# The three answers of the recursion
-/

theorem recompute_of_undeclared {g : FactGraph γ} {id : String}
    (hnode : g.nodes.get? id = none) (context : γ) (active : List String) :
    g.recompute context active id = .error (.notFound id active.head?) := by
  rw [recompute]
  split
  · rfl
  · simp_all

theorem recompute_of_active {g : FactGraph γ} {id : String} {node : Node γ}
    (hnode : g.nodes.get? id = some node) {active : List String} (hactive : id ∈ active)
    (context : γ) :
    g.recompute context active id = .error (.cyclic (cycle active id)) := by
  rw [recompute]
  split
  · simp_all
  · rw [dif_pos hactive]

theorem recompute_of_idle {g : FactGraph γ} {id : String} {node : Node γ}
    (hnode : g.nodes.get? id = some node) {active : List String} (hidle : id ∉ active)
    (context : γ) :
    g.recompute context active id =
      (node.compute context).follow (g.recompute context (id :: active)) (some id) := by
  rw [recompute]
  split
  · simp_all
  · rw [dif_neg hidle]
    simp_all

/-!
# The four answers of resolution
-/

theorem pull_of_known {g : FactGraph γ} {p : Progress} {id : String} {value : Json}
    (hmemo : p.memo.get? id = some value) (context : γ) (active : List String) :
    g.pull context active id p = (.ok value, p) := by
  rw [pull, hmemo]

theorem pull_of_undeclared {g : FactGraph γ} {p : Progress} {id : String}
    (hmemo : p.memo.get? id = none) (hnode : g.nodes.get? id = none)
    (context : γ) (active : List String) :
    g.pull context active id p = (.error (.notFound id active.head?), p) := by
  rw [pull, hmemo]
  simp only
  split
  · rfl
  · simp_all

theorem pull_of_active {g : FactGraph γ} {p : Progress} {id : String} {node : Node γ}
    (hmemo : p.memo.get? id = none) (hnode : g.nodes.get? id = some node)
    {active : List String} (hactive : id ∈ active) (context : γ) :
    g.pull context active id p = (.error (.cyclic (cycle active id)), p) := by
  rw [pull, hmemo]
  simp only
  split
  · simp_all
  · rw [dif_pos hactive]

def finish (id : String) : Except GraphError Json × Progress -> Except GraphError Json × Progress
  | (.ok value, p) =>
      (.ok value, { p with order := p.order ++ [id], memo := p.memo.insert id value })
  | (.error e, p) => (.error e, p)

theorem pull_of_idle {g : FactGraph γ} {p : Progress} {id : String} {node : Node γ}
    (hmemo : p.memo.get? id = none) (hnode : g.nodes.get? id = some node)
    {active : List String} (hidle : id ∉ active) (context : γ) :
    g.pull context active id p =
      finish id ((node.compute context).run (g.pull context (id :: active)) (some id)
        { p with started := p.started ++ [id] }) := by
  rw [pull, hmemo]
  simp only
  split
  · simp_all
  · rename_i found hfound
    rw [dif_neg hidle]
    have hsame : found = node := Option.some.inj (hfound.symm.trans hnode)
    rw [hsame]
    unfold finish
    rfl

end FactGraph
end Reckoner
