import Reckoner.Json.Basic

/-!
# Pulling facts

What a node computes is a program that pulls the values of other nodes.  It may
choose what to pull by the answers it has got, deal with errors or pass them on,
and set the values of nodes beforehand.
-/

namespace Reckoner

inductive GraphError where
  | notFound (id : String) (requestedBy : Option String)
  | cyclic (path : List String)
  | duplicate (id : String)
  | failed (node : String) (cause : String)
  deriving DecidableEq, Inhabited

namespace GraphError

def message : GraphError -> String
  | .notFound id none => "node not found: " ++ id
  | .notFound id (some parent) => "node not found: " ++ id ++ " (requested by " ++ parent ++ ")"
  | .cyclic path => "cyclic dependency: " ++ " -> ".intercalate path
  | .duplicate id => "duplicate node: " ++ id
  | .failed node cause => "node " ++ node ++ " failed: " ++ cause

end GraphError

/-- What is known while nodes are resolved: the values so far, the nodes in the order in which
their values were complete, and the nodes in the order in which they were started. -/
structure Progress where
  memo : Table Json := []
  order : List String := []
  started : List String := []
  deriving Inhabited

inductive Pull (α : Type) where
  /-- ends -/
  | done (result : α)
  /-- asks for the value of a node -/
  | get (id : String) (next : Except GraphError Json -> Pull α)
  /-- sets the value of a node -/
  | seed (id : String) (value : Json) (next : Pull α)
  /-- asks which node is being computed, which is none outside of all nodes -/
  | current (next : Option String -> Pull α)
  /-- asks for the nodes that are complete, in order, and for all values -/
  | look (next : List String -> Table Json -> Pull α)

namespace Pull

variable {α β : Type}

def bind (program : Pull α) (f : α -> Pull β) : Pull β :=
  match program with
  | .done result => f result
  | .get id next => .get id fun answer => (next answer).bind f
  | .seed id value next => .seed id value (next.bind f)
  | .current next => .current fun node => (next node).bind f
  | .look next => .look fun order memo => (next order memo).bind f

instance : Monad Pull where
  pure := .done
  bind := .bind

def value (id : String) : ExceptT GraphError Pull Json :=
  ExceptT.mk (.get id .done)

def setValue (id : String) (value : Json) : Pull Unit :=
  .seed id value (.done ())

def completed : Pull (List String) :=
  .look fun order _ => .done order

def known : Pull (Table Json) :=
  .look fun _ memo => .done memo

def failure (cause : String) : Pull GraphError :=
  .current fun node => .done (.failed (node.getD "") cause)

/-- Runs a program inside a node. `ask` answers for the values of nodes. -/
def run (ask : String -> Progress -> Except GraphError Json × Progress) (node : Option String) :
    Pull α -> Progress -> α × Progress
  | .done result, p => (result, p)
  | .get id next, p =>
      let (answer, p) := ask id p
      run ask node (next answer) p
  | .seed id value next, p => run ask node next { p with memo := p.memo.insert id value }
  | .current next, p => run ask node (next node) p
  | .look next, p => run ask node (next p.order p.memo) p

end Pull
end Reckoner
