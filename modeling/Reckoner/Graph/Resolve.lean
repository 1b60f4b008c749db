import Reckoner.Graph.Basic

/-!
# Resolving facts

The value of a node is computed when it is first asked for, and kept.  A node that
is asked for while it is being computed closes a cycle.  The nodes that are being
computed are all different, so only finitely many computations are ever open inside
each other.
-/

namespace Reckoner

namespace FactGraph

variable {γ : Type}

/-- The cycle that is closed by asking for a node that is being computed. The nodes that are being
computed are listed with the latest first. -/
def cycle (active : List String) (id : String) : List String :=
  id :: (active.takeWhile (· ≠ id)).reverse ++ [id]

def idle (g : FactGraph γ) (active : List String) : Table (Node γ) :=
  List.filter (fun entry => entry.1 ∉ active) g.nodes

theorem length_idle_cons_lt {g : FactGraph γ} {active : List String} {id : String}
    {node : Node γ} (found : g.nodes.get? id = some node) (isIdle : id ∉ active) :
    (g.idle (id :: active)).length < (g.idle active).length := by
  have mem : (id, node) ∈ g.nodes := Table.mem_of_get? found
  have narrower : g.idle (id :: active) = (g.idle active).filter fun other => other.1 ≠ id := by
    simp only [idle, List.filter_filter]
    congr 1
    funext other
    by_cases same : other.1 = id <;> simp [same]
  have memIdle : (id, node) ∈ g.idle active := by
    simp [idle, mem, isIdle]
  rw [narrower]
  refine Nat.lt_of_le_of_ne (List.length_filter_le _ _) fun same => ?_
  have kept := List.length_filter_eq_length_iff.mp same (id, node) memIdle
  simp at kept

/-- The value of a node, asked for while some nodes are being computed. -/
def pull (g : FactGraph γ) (context : γ) (active : List String) (id : String) (p : Progress) :
    Except GraphError Json × Progress :=
  match p.memo.get? id with
  | some value => (.ok value, p)
  | none =>
      match _found : g.nodes.get? id with
      | none => (.error (.notFound id active.head?), p)
      | some node =>
          if _isIdle : id ∈ active then
            (.error (.cyclic (cycle active id)), p)
          else
            let ask (other : String) (p : Progress) := g.pull context (id :: active) other p
            let started := { p with started := p.started ++ [id] }
            match (node.compute context).run ask (some id) started with
            | (.ok value, p) =>
                (.ok value, { p with order := p.order ++ [id], memo := p.memo.insert id value })
            | (.error e, p) => (.error e, p)
termination_by (g.idle active).length
decreasing_by exact length_idle_cons_lt _found _isIdle

def perform {α : Type} (g : FactGraph γ) (context : γ) (program : Pull α) (p : Progress) :
    α × Progress :=
  program.run (g.pull context []) none p

def values (ids : List String) : ExceptT GraphError Pull (Table Json) :=
  ids.foldlM (fun known id => do return known.insert id (← Pull.value id)) []

def resolve (g : FactGraph γ) (context : γ) (ids : List String) :
    Except GraphError (Table Json) × Progress :=
  g.perform context (values ids).run {}

end FactGraph
end Reckoner
