import Reckoner.Graph.Pull
import Reckoner.Json.Record

/-!
# Fact graphs

A graph holds named nodes.  The dependencies that a node declares are a matter of
record: what a node really pulls is seen when it is computed.
-/

namespace Reckoner

structure Node (γ : Type) where
  id : String
  deps : List String := []
  explanation? : Option String := none
  formula? : Option String := none
  compute : γ -> Pull (Except GraphError Json)

structure NodeInfo where
  id : String
  deps : List String := []
  explanation? : Option String := none
  formula? : Option String := none
  deriving DecidableEq, Inhabited

structure MissingDependency where
  node : String
  dependency : String
  deriving DecidableEq, Inhabited

namespace Node

def info {γ : Type} (node : Node γ) : NodeInfo where
  id := node.id
  deps := node.deps
  explanation? := node.explanation?
  formula? := node.formula?

end Node

namespace NodeInfo

def record : Json.Record NodeInfo where
  name := "NodeInfo"
  blank := { id := "" }
  fields := [
    .mandatory "id" Json.Decoder.string .str NodeInfo.id fun id n => { n with id },
    .defaulted "deps" (Json.Decoder.list Json.Decoder.string) Json.ofStrings
      NodeInfo.deps fun deps n => { n with deps },
    .optional "explain" Json.Decoder.string .str
      NodeInfo.explanation? fun explanation? n => { n with explanation? },
    .optional "formula" Json.Decoder.string .str
      NodeInfo.formula? fun formula? n => { n with formula? }]

end NodeInfo

namespace MissingDependency

def record : Json.Record MissingDependency where
  name := "DepFinding"
  blank := { node := "", dependency := "" }
  fields := [
    .mandatory "node" Json.Decoder.string .str
      MissingDependency.node fun node m => { m with node },
    .mandatory "missingDep" Json.Decoder.string .str
      MissingDependency.dependency fun dependency m => { m with dependency }]

end MissingDependency

structure FactGraph (γ : Type) where
  nodes : Table (Node γ) := []

namespace FactGraph

variable {γ : Type}

def contains (g : FactGraph γ) (id : String) : Bool :=
  g.nodes.contains id

def size (g : FactGraph γ) : Nat :=
  g.nodes.length

def isEmpty (g : FactGraph γ) : Bool :=
  g.nodes.isEmpty

def ids (g : FactGraph γ) : List String :=
  g.nodes.keys

/-- Takes in a node, whose name must be new: whether it could, and the graph afterwards. -/
def insert (g : FactGraph γ) (node : Node γ) : Except GraphError Unit × FactGraph γ :=
  if g.contains node.id then
    (.error (.duplicate node.id), g)
  else
    (.ok (), { nodes := g.nodes.insert node.id node })

def insertAll (g : FactGraph γ) : List (Node γ) -> Except GraphError (FactGraph γ)
  | [] => .ok g
  | node :: nodes =>
      match g.insert node with
      | (.ok (), g) => g.insertAll nodes
      | (.error e, _) => .error e

def ofNodes (nodes : List (Node γ)) : Except GraphError (FactGraph γ) :=
  insertAll {} nodes

def explain (g : FactGraph γ) (id : String) : Except GraphError NodeInfo :=
  match g.nodes.get? id with
  | some node => .ok node.info
  | none => .error (.notFound id none)

/-- The declared dependencies that the graph does not have, in the order of the nodes and then in
the order of declaration. -/
def missingDependencies (g : FactGraph γ) : List MissingDependency :=
  g.nodes.values.flatMap fun node =>
    (node.deps.filter fun dep => !g.contains dep).map fun dep =>
      { node := node.id, dependency := dep }

end FactGraph
end Reckoner
