import Reckoner.Proofs.Graph.Order
import Reckoner.Proofs.Table

/-!
# Values that are set beforehand

Setting the value of a node before a resolution amounts to declaring the node anew,
with a program that ends in this value.  The two resolutions are gone through side by
side: they give the same answers, and what the first one knows is what the second one
knows together with the values that were set.  The nodes that were set are complete in
the second one only, so a program that looks at the complete nodes can tell the two
apart, and no other program can.
-/

namespace Reckoner

namespace Pull

variable {α : Type}

/-- Programs that do not look at what is known. They may deal with errors, set values, and ask which
node is being computed. -/
inductive Blind : Pull α -> Prop where
  | done (result : α) : Blind (.done result)
  | get {id : String} {next : Except GraphError Json -> Pull α} :
      (∀ answer, Blind (next answer)) -> Blind (.get id next)
  | seed {id : String} {value : Json} {next : Pull α} :
      Blind next -> Blind (.seed id value next)
  | current {next : Option String -> Pull α} :
      (∀ node, Blind (next node)) -> Blind (.current next)

theorem Blind.bind {β : Type} {program : Pull α} (h : program.Blind) {f : α -> Pull β}
    (hf : ∀ result, (f result).Blind) : (program.bind f).Blind := by
  induction h with
  | done result => exact hf result
  | get _ ih => exact .get ih
  | seed _ ih => exact .seed ih
  | current _ ih => exact .current ih

def askAll : List String -> Pull (List (Except GraphError Json))
  | [] => .done []
  | id :: ids => .get id fun answer => (askAll ids).bind fun answers => .done (answer :: answers)

theorem blind_askAll (ids : List String) : (askAll ids).Blind := by
  induction ids with
  | nil => exact .done []
  | cons id ids ih => exact .get fun answer => ih.bind fun answers => .done (answer :: answers)

def seeded (seeds : List (String × Json)) (program : Pull α) : Pull α :=
  seeds.foldr (fun entry rest => .seed entry.1 entry.2 rest) program

theorem run_seeded (seeds : List (String × Json)) (program : Pull α)
    (ask : String -> Progress -> Except GraphError Json × Progress) (node : Option String)
    (p : Progress) :
    (seeded seeds program).run ask node p =
      program.run ask node
        { p with memo := seeds.foldl (fun memo entry => memo.insert entry.1 entry.2) p.memo } := by
  induction seeds generalizing p with
  | nil => rfl
  | cons entry rest ih => exact ih { p with memo := p.memo.insert entry.1 entry.2 }

end Pull

namespace Node

def constant {γ : Type} (id : String) (value : Json) : Node γ where
  id := id
  compute := fun _ => .done (.ok value)

end Node

namespace FactGraph

variable {γ : Type}

def Blind (g : FactGraph γ) (context : γ) : Prop :=
  ∀ id node, g.nodes.get? id = some node -> (node.compute context).Blind

/-- The graph in which nodes are declared, or declared anew, by the values that they have. -/
def substitute (g : FactGraph γ) (seeds : List (String × Json)) : FactGraph γ where
  nodes := seeds.foldl
    (fun nodes entry => nodes.insert entry.1 (Node.constant entry.1 entry.2)) g.nodes

theorem get?_substitute (g : FactGraph γ) (seeds : List (String × Json)) (id : String) :
    (g.substitute seeds).nodes.get? id =
      (((Table.ofList seeds).get? id).map (Node.constant id)).or (g.nodes.get? id) := by
  induction seeds using List.reverseRecOn with
  | nil => rfl
  | append_singleton seeds entry ih =>
      have hlast : (g.substitute (seeds ++ [entry])).nodes =
          (g.substitute seeds).nodes.insert entry.1 (Node.constant entry.1 entry.2) := by
        simp only [substitute, List.foldl_append, List.foldl_cons, List.foldl_nil]
      rw [hlast, Table.ofList_append_singleton]
      by_cases hsame : entry.1 = id
      · rw [← hsame, Table.get?_insert_self, Table.get?_insert_self]
        rfl
      · rw [Table.get?_insert_of_ne _ _ hsame, Table.get?_insert_of_ne _ _ hsame]
        exact ih

theorem get?_substitute_of_seeded {seeds : List (String × Json)} {id : String} {value : Json}
    (h : (Table.ofList seeds).get? id = some value) (g : FactGraph γ) :
    (g.substitute seeds).nodes.get? id = some (Node.constant id value) := by
  rw [get?_substitute, h]
  rfl

theorem get?_substitute_of_unseeded {seeds : List (String × Json)} {id : String}
    (h : (Table.ofList seeds).get? id = none) (g : FactGraph γ) :
    (g.substitute seeds).nodes.get? id = g.nodes.get? id := by
  rw [get?_substitute, h]
  rfl

end FactGraph

/-!
# Two resolutions side by side
-/

namespace Progress

def unseeded (seeds : Table Json) (ids : List String) : List String :=
  ids.filter fun id => !seeds.contains id

theorem unseeded_append_singleton {seeds : Table Json} {id : String}
    (h : seeds.get? id = none) (ids : List String) :
    unseeded seeds (ids ++ [id]) = unseeded seeds ids ++ [id] := by
  simp [unseeded, Table.contains, h]

theorem unseeded_append_seeded {seeds : Table Json} {id : String} {value : Json}
    (h : seeds.get? id = some value) (ids : List String) :
    unseeded seeds (ids ++ [id]) = unseeded seeds ids := by
  simp [unseeded, Table.contains, h]

theorem not_mem_unseeded {seeds : Table Json} {id : String} (h : seeds.contains id = true)
    (ids : List String) : id ∉ unseeded seeds ids := by
  simp [unseeded, h]

/-- The first of two resolutions knows what the second one knows, and the values that were set
besides. The nodes that it has started and completed are those of the second one, less the nodes
that were set. -/
structure Mirrors (seeds : Table Json) (p q : Progress) : Prop where
  memo : ∀ id, p.memo.get? id = (q.memo.get? id).or (seeds.get? id)
  order : p.order = unseeded seeds q.order
  started : p.started = unseeded seeds q.started

namespace Mirrors

variable {seeds : Table Json} {p q : Progress} {id : String}

theorem start (seeds : Table Json) : Mirrors seeds { memo := seeds } {} where
  memo := fun _ => rfl
  order := rfl
  started := rfl

theorem get?_insert (h : Mirrors seeds p q) (id : String) (value : Json) (other : String) :
    (p.memo.insert id value).get? other =
      ((q.memo.insert id value).get? other).or (seeds.get? other) := by
  by_cases hsame : id = other
  · rw [hsame, Table.get?_insert_self, Table.get?_insert_self]
    rfl
  · rw [Table.get?_insert_of_ne _ _ hsame, Table.get?_insert_of_ne _ _ hsame]
    exact h.memo other

theorem seed (h : Mirrors seeds p q) (id : String) (value : Json) :
    Mirrors seeds { p with memo := p.memo.insert id value }
      { q with memo := q.memo.insert id value } where
  memo := h.get?_insert id value
  order := h.order
  started := h.started

theorem begin (h : Mirrors seeds p q) (hunseeded : seeds.get? id = none) :
    Mirrors seeds { p with started := p.started ++ [id] }
      { q with started := q.started ++ [id] } where
  memo := h.memo
  order := h.order
  started := by rw [unseeded_append_singleton hunseeded, ← h.started]

theorem complete (h : Mirrors seeds p q) (hunseeded : seeds.get? id = none) (value : Json) :
    Mirrors seeds { p with order := p.order ++ [id], memo := p.memo.insert id value }
      { q with order := q.order ++ [id], memo := q.memo.insert id value } where
  memo := h.get?_insert id value
  order := by rw [unseeded_append_singleton hunseeded, ← h.order]
  started := h.started

/-- Only the second resolution ever computes a node that was set. -/
theorem compute (h : Mirrors seeds p q) {value : Json} (hseeded : seeds.get? id = some value)
    (hnew : q.memo.get? id = none) :
    Mirrors seeds p
      { q with
        started := q.started ++ [id]
        order := q.order ++ [id]
        memo := q.memo.insert id value } where
  memo := by
    intro other
    show p.memo.get? other = ((q.memo.insert id value).get? other).or (seeds.get? other)
    by_cases hsame : id = other
    · rw [← hsame, Table.get?_insert_self, h.memo id, hnew, hseeded]
      rfl
    · rw [Table.get?_insert_of_ne _ _ hsame]
      exact h.memo other
  order := by rw [unseeded_append_seeded hseeded, ← h.order]
  started := by rw [unseeded_append_seeded hseeded, ← h.started]

end Mirrors

end Progress

namespace FactGraph

open Progress

variable {γ : Type}

def AsksAlike (seeds : Table Json)
    (ask ask' : String -> Progress -> Except GraphError Json × Progress) : Prop :=
  ∀ id p q, Mirrors seeds p q ->
    (ask id p).1 = (ask' id q).1 ∧ Mirrors seeds (ask id p).2 (ask' id q).2

theorem run_mirrors {α : Type} {seeds : Table Json}
    {ask ask' : String -> Progress -> Except GraphError Json × Progress}
    (hask : AsksAlike seeds ask ask') {program : Pull α} (hprogram : program.Blind)
    (node : Option String) {p q : Progress} (h : Mirrors seeds p q) :
    (program.run ask node p).1 = (program.run ask' node q).1 ∧
      Mirrors seeds (program.run ask node p).2 (program.run ask' node q).2 := by
  induction hprogram generalizing p q with
  | done result => exact ⟨rfl, h⟩
  | @get id next _ ih =>
      rcases hask id p q h with ⟨hsame, hafter⟩
      have hrest := ih (ask id p).1 hafter
      show ((next (ask id p).1).run ask node (ask id p).2).1 =
          ((next (ask' id q).1).run ask' node (ask' id q).2).1 ∧
        Mirrors seeds ((next (ask id p).1).run ask node (ask id p).2).2
          ((next (ask' id q).1).run ask' node (ask' id q).2).2
      rw [← hsame]
      exact hrest
  | @seed id value next _ ih => exact ih (h.seed id value)
  | current _ ih => exact ih node h

theorem finish_mirrors {seeds : Table Json} {id : String} (hunseeded : seeds.get? id = none)
    {result result' : Except GraphError Json × Progress} (hsame : result.1 = result'.1)
    (h : Mirrors seeds result.2 result'.2) :
    (finish id result).1 = (finish id result').1 ∧
      Mirrors seeds (finish id result).2 (finish id result').2 := by
  rcases result with ⟨answer, p⟩
  rcases result' with ⟨answer', q⟩
  cases hsame
  cases answer with
  | error e => exact ⟨rfl, h⟩
  | ok value => exact ⟨rfl, h.complete hunseeded value⟩

theorem pull_mirrors {g : FactGraph γ} {context : γ} (hblind : g.Blind context)
    (seeds : List (String × Json)) (active : List String)
    (hactive : ∀ id ∈ active, (Table.ofList seeds).get? id = none) :
    AsksAlike (Table.ofList seeds) (g.pull context active)
      ((g.substitute seeds).pull context active) := by
  intro id p q h
  cases hseeded : (Table.ofList seeds).get? id with
  | some value =>
      cases hmemo : q.memo.get? id with
      | some found =>
          have hknown : p.memo.get? id = some found := by
            rw [h.memo id, hmemo]
            rfl
          rw [pull_of_known hknown, pull_of_known hmemo]
          exact ⟨rfl, h⟩
      | none =>
          -- known on the one side, and computed at once on the other
          have hknown : p.memo.get? id = some value := by
            rw [h.memo id, hmemo, hseeded]
            rfl
          have hidle : id ∉ active := by
            intro hmem
            have hnone := hactive id hmem
            rw [hseeded] at hnone
            cases hnone
          rw [pull_of_known hknown,
            pull_of_idle hmemo (get?_substitute_of_seeded hseeded g) hidle]
          exact ⟨rfl, h.compute hseeded hmemo⟩
  | none =>
      have hmemo : p.memo.get? id = q.memo.get? id := by
        rw [h.memo id, hseeded, Option.or_none]
      have hnodes : (g.substitute seeds).nodes.get? id = g.nodes.get? id :=
        get?_substitute_of_unseeded hseeded g
      cases hq : q.memo.get? id with
      | some found =>
          rw [pull_of_known (hmemo.trans hq), pull_of_known hq]
          exact ⟨rfl, h⟩
      | none =>
          have hp := hmemo.trans hq
          cases hnode : g.nodes.get? id with
          | none =>
              rw [pull_of_undeclared hp hnode, pull_of_undeclared hq (hnodes.trans hnode)]
              exact ⟨rfl, h⟩
          | some node =>
              by_cases hmem : id ∈ active
              · rw [pull_of_active hp hnode hmem, pull_of_active hq (hnodes.trans hnode) hmem]
                exact ⟨rfl, h⟩
              · have hwithin : ∀ other ∈ id :: active,
                    (Table.ofList seeds).get? other = none := by
                  intro other hother
                  rcases List.mem_cons.mp hother with heq | hbefore
                  · rw [heq]
                    exact hseeded
                  · exact hactive other hbefore
                -- one more node is active inside, so fewer are left to become so
                have hinner := pull_mirrors hblind seeds (id :: active) hwithin
                rcases run_mirrors hinner (hblind id node hnode) (some id) (h.begin hseeded) with
                  ⟨hsame, hend⟩
                rw [pull_of_idle hp hnode hmem, pull_of_idle hq (hnodes.trans hnode) hmem]
                exact finish_mirrors hseeded hsame hend
termination_by (g.idle active).length
decreasing_by exact length_idle_cons_lt hnode hmem

/-!
# Questions after values were set
-/

theorem perform_seeded {g : FactGraph γ} {context : γ} (hblind : g.Blind context)
    (seeds : List (String × Json)) (ids : List String) :
    let seeded := g.perform context (Pull.seeded seeds (Pull.askAll ids)) {}
    let substituted := (g.substitute seeds).perform context (Pull.askAll ids) {}
    seeded.1 = substituted.1 ∧
      (∀ id ∈ seeds.map Prod.fst, id ∉ seeded.2.started) ∧
      seeded.2.order = substituted.2.order.filter fun id => id ∉ seeds.map Prod.fst := by
  intro seeded substituted
  have hset : seeded = (Pull.askAll ids).run (g.pull context []) none
      { memo := Table.ofList seeds } :=
    Pull.run_seeded seeds (Pull.askAll ids) (g.pull context []) none {}
  have hask := pull_mirrors hblind seeds [] fun id hid => nomatch hid
  rcases run_mirrors hask (Pull.blind_askAll ids) none (Mirrors.start (Table.ofList seeds)) with
    ⟨hsame, hmirrors⟩
  rw [← hset] at hsame hmirrors
  refine ⟨hsame, ?_, ?_⟩
  · intro id hid
    rw [hmirrors.started]
    exact not_mem_unseeded (Table.contains_ofList_iff.mpr hid) _
  · rw [hmirrors.order]
    exact Table.filter_not_contains (fun _ => Table.contains_ofList_iff) substituted.2.order

/-- Values that cut a cycle and stand in for a node that is missing. -/
theorem perform_seeded_cycle :
    let g : FactGraph Unit :=
      { nodes := [
          ("a", { id := "a", compute := fun _ => .get "b" .done }),
          ("b", { id := "b", compute := fun _ => .get "a" .done }),
          ("c", { id := "c", compute := fun _ => .get "ghost" .done })] }
    let seeds : List (String × Json) := [("b", .bool true), ("ghost", .bool false)]
    let ids := ["a", "b", "c"]
    let seeded := g.perform () (Pull.seeded seeds (Pull.askAll ids)) {}
    let substituted := (g.substitute seeds).perform () (Pull.askAll ids) {}
    g.Blind () ∧
      seeded.1 = substituted.1 ∧
      (∀ id ∈ ["b", "ghost"], id ∉ seeded.2.started) ∧
      seeded.2.order = substituted.2.order.filter (fun id => id ∉ ["b", "ghost"]) ∧
      substituted.1 = [.ok (.bool true), .ok (.bool true), .ok (.bool false)] ∧
      substituted.2.order = ["b", "a", "ghost", "c"] := by
  intro g seeds ids seeded substituted
  have hblind : g.Blind () := by
    intro id node hnode
    simp only [g, Table.get?] at hnode
    split at hnode
    · cases hnode
      exact .get fun answer => .done answer
    split at hnode
    · cases hnode
      exact .get fun answer => .done answer
    split at hnode
    · cases hnode
      exact .get fun answer => .done answer
    · cases hnode
  rcases perform_seeded hblind seeds ids with ⟨hsame, hunstarted, horder⟩
  refine ⟨hblind, hsame, hunstarted, horder, ?_, ?_⟩
  · subst substituted g seeds ids
    cbv
  · subst substituted g seeds ids
    cbv

/-- Programs that look at the complete nodes, or at all that is known, can tell a value that was set
from one that was computed, though they pass on every error and set no value themselves. -/
theorem perform_seeded_of_look :
    let complete : Except GraphError Json -> Pull (Except GraphError Json)
      | .ok value => .look fun order _ => .done (.ok (.arr [value, Json.ofStrings order]))
      | .error e => .done (.error e)
    let g : FactGraph Unit :=
      { nodes := [
          ("a", { id := "a", compute := fun _ => .get "x" complete }),
          ("b", { id := "b", compute := fun _ => .look fun _ memo => .done (.ok (.obj memo)) }),
          ("x", { id := "x", compute := fun _ => .done (.ok (.bool true)) })] }
    let seeds : List (String × Json) := [("x", .bool true)]
    let seeded := g.perform () (Pull.seeded seeds (Pull.askAll ["b", "a"])) {}
    let substituted := (g.substitute seeds).perform () (Pull.askAll ["b", "a"]) {}
    g.Forwarding () ∧
      seeded.1 = [.ok (.obj [("x", .bool true)]), .ok (.arr [.bool true, .arr [.str "b"]])] ∧
      substituted.1 = [.ok (.obj []), .ok (.arr [.bool true, .arr [.str "b", .str "x"]])] ∧
      seeded.1 ≠ substituted.1 := by
  intro complete g seeds seeded substituted
  have hforwarding : g.Forwarding () := by
    intro id node hnode
    simp only [g, Table.get?] at hnode
    split at hnode
    · cases hnode
      refine .get (fun e => .done e) fun value => ?_
      exact .look fun order _ => .done _
    split at hnode
    · cases hnode
      exact .look fun _ memo => .done _
    split at hnode
    · cases hnode
      exact .done _
    · cases hnode
  have hseeded : seeded.1 =
      [.ok (.obj [("x", .bool true)]), .ok (.arr [.bool true, .arr [.str "b"]])] := by
    subst seeded g seeds complete
    cbv
  have hsubstituted : substituted.1 =
      [.ok (.obj []), .ok (.arr [.bool true, .arr [.str "b", .str "x"]])] := by
    subst substituted g seeds complete
    cbv
  refine ⟨hforwarding, hseeded, hsubstituted, ?_⟩
  rw [hseeded, hsubstituted]
  intro hsame
  cases hsame

end FactGraph
end Reckoner
