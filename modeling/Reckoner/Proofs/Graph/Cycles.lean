import Reckoner.Proofs.Graph.Recompute
import Mathlib.Logic.Relation
import Mathlib.Data.List.Chain
import Mathlib.Data.List.Nodup
import Mathlib.Data.List.TakeWhile

/-!
# Cycles and missing nodes

When every node pulls a fixed list of nodes, a graph has a relation of pulls, and
resolution is a search along it.  The search fails exactly if it can reach a node that
is missing or a cycle, and the error shows one of these.

A node is grounded if it is declared and all nodes that it pulls are grounded.  Only
grounded nodes are ever remembered, so a value that is known already hides no cycle.
The nodes that are being computed pull one another, the earlier the later, so asking
for one of them again closes a cycle of the relation.
-/

namespace Reckoner

namespace Pull

/-- Programs that pull a fixed list of nodes in order, pass on every error that they are
answered, and end in a value otherwise. They may look at what is known. -/
inductive Pulls : List String -> Pull (Except GraphError Json) -> Prop where
  | done (value : Json) : Pulls [] (.done (.ok value))
  | get {id : String} {ids : List String}
      {next : Except GraphError Json -> Pull (Except GraphError Json)} :
      (∀ e, next (.error e) = .done (.error e)) ->
      (∀ value, Pulls ids (next (.ok value))) ->
      Pulls (id :: ids) (.get id next)
  | current {ids : List String} {next : Option String -> Pull (Except GraphError Json)} :
      (∀ node, Pulls ids (next node)) -> Pulls ids (.current next)
  | look {ids : List String}
      {next : List String -> Table Json -> Pull (Except GraphError Json)} :
      (∀ order memo, Pulls ids (next order memo)) -> Pulls ids (.look next)

def chain (value : Json) : List String -> Pull (Except GraphError Json)
  | [] => .done (.ok value)
  | id :: ids => .get id fun
      | .ok _ => chain value ids
      | .error e => .done (.error e)

theorem pulls_chain (value : Json) (ids : List String) : Pulls ids (chain value ids) := by
  induction ids with
  | nil => exact .done value
  | cons id ids ih => exact .get (fun _ => rfl) fun _ => ih

end Pull

namespace FactGraph

variable {γ : Type}

/-!
# The shape of a cycle
-/

theorem takeWhile_ne_append {id : String} {active : List String} (hmem : id ∈ active) :
    ∃ rest, active = active.takeWhile (· ≠ id) ++ id :: rest := by
  induction active with
  | nil => cases hmem
  | cons next later ih =>
      by_cases hsame : next = id
      · exact ⟨later, by simp [hsame]⟩
      · rcases List.mem_cons.mp hmem with heq | hlater
        · exact absurd heq.symm hsame
        · obtain ⟨rest, hrest⟩ := ih hlater
          exact ⟨rest, by simpa [hsame] using hrest⟩

/-- The nodes that are being computed are listed with the latest first, so the cycle goes through
them backwards. -/
theorem isChain_cycle {relation : String -> String -> Prop} {id : String} {active : List String}
    (hchain : (id :: active).IsChain (flip relation)) (hmem : id ∈ active) :
    (cycle active id).IsChain relation := by
  obtain ⟨rest, hrest⟩ := takeWhile_ne_append hmem
  have hsplit : id :: active = (id :: active.takeWhile (· ≠ id) ++ [id]) ++ rest := by
    rw [List.append_assoc]
    exact congrArg (id :: ·) hrest
  have hloop : (id :: active.takeWhile (· ≠ id) ++ [id]).IsChain (flip relation) := by
    rw [hsplit] at hchain
    exact hchain.left_of_append
  have hreverse : cycle active id = (id :: active.takeWhile (· ≠ id) ++ [id]).reverse := by
    simp [cycle]
  rw [hreverse]
  exact List.isChain_reverse.mpr hloop

theorem mem_of_mem_cycle {active : List String} {id other : String} (hid : id ∈ active)
    (hother : other ∈ cycle active id) : other ∈ active := by
  rcases List.mem_append.mp hother with hbefore | hlast
  · rcases List.mem_cons.mp hbefore with heq | hmem
    · rw [heq]
      exact hid
    · exact (List.takeWhile_sublist _).subset (List.mem_reverse.mp hmem)
  · rw [List.mem_singleton.mp hlast]
    exact hid

theorem nodup_dropLast_cycle {active : List String} (h : active.Nodup) (id : String) :
    (cycle active id).dropLast.Nodup := by
  have hdrop : (cycle active id).dropLast = id :: (active.takeWhile (· ≠ id)).reverse :=
    List.dropLast_concat
  rw [hdrop]
  apply List.nodup_cons.mpr
  constructor
  · intro hmem
    have hne := List.mem_takeWhile_imp (List.mem_reverse.mp hmem)
    exact of_decide_eq_true hne rfl
  · exact List.nodup_reverse.mpr (h.sublist (List.takeWhile_sublist _))

/-!
# The relation of pulls
-/

theorem contains_eq_isSome (g : FactGraph γ) (id : String) :
    g.contains id = (g.nodes.get? id).isSome := rfl

def HasPulls (g : FactGraph γ) (context : γ) (pulls : String -> List String) : Prop :=
  ∀ id node, g.nodes.get? id = some node -> (node.compute context).Pulls (pulls id)

def Edge (g : FactGraph γ) (pulls : String -> List String) (a b : String) : Prop :=
  g.contains a = true ∧ b ∈ pulls a

abbrev Reaches (g : FactGraph γ) (pulls : String -> List String) : String -> String -> Prop :=
  Relation.ReflTransGen (g.Edge pulls)

def IsCycle (g : FactGraph γ) (pulls : String -> List String) (path : List String) : Prop :=
  (∃ id inner, path = id :: inner ++ [id]) ∧ path.IsChain (g.Edge pulls)

section Relation

variable {g : FactGraph γ} {pulls : String -> List String}

theorem reaches_of_isChain {id : String} {path : List String}
    (hchain : (id :: path).IsChain (g.Edge pulls)) {other : String}
    (hother : other ∈ id :: path) : g.Reaches pulls id other := by
  induction path generalizing id with
  | nil =>
      rw [List.mem_singleton.mp hother]
  | cons next rest ih =>
      obtain ⟨hedge, hrest⟩ := List.isChain_cons_cons.mp hchain
      rcases List.mem_cons.mp hother with heq | hmem
      · rw [heq]
      · exact Relation.ReflTransGen.head hedge (ih hrest hmem)

theorem isCycle_cycle {id : String} {active : List String}
    (hchain : (id :: active).IsChain (flip (g.Edge pulls))) (hmem : id ∈ active) :
    g.IsCycle pulls (cycle active id) :=
  ⟨⟨id, (active.takeWhile (· ≠ id)).reverse, rfl⟩, isChain_cycle hchain hmem⟩

theorem IsCycle.transGen {path : List String} (hcycle : g.IsCycle pulls path) :
    ∃ id ∈ path, Relation.TransGen (g.Edge pulls) id id := by
  obtain ⟨⟨id, inner, rfl⟩, hchain⟩ := hcycle
  refine ⟨id, List.mem_cons_self, ?_⟩
  cases inner with
  | nil => exact .single (List.isChain_cons_cons.mp hchain).1
  | cons next rest =>
      obtain ⟨hedge, hrest⟩ := List.isChain_cons_cons.mp hchain
      have hlast : id ∈ next :: rest ++ [id] :=
        List.mem_append_right _ (List.mem_singleton_self id)
      exact .head' hedge (reaches_of_isChain hrest hlast)

end Relation

/-!
# Grounded nodes
-/

/-- A node that the graph has, as it has all nodes that are pulled for it, down to those that
pull nothing. -/
inductive Grounded (g : FactGraph γ) (pulls : String -> List String) : String -> Prop where
  | intro {id : String} :
      g.contains id = true -> (∀ other ∈ pulls id, Grounded g pulls other) ->
      Grounded g pulls id

namespace Grounded

variable {g : FactGraph γ} {pulls : String -> List String} {id : String}

theorem contains (h : g.Grounded pulls id) : g.contains id = true := by
  cases h with
  | intro hcontains _ => exact hcontains

theorem of_edge (h : g.Grounded pulls id) {other : String} (hedge : g.Edge pulls id other) :
    g.Grounded pulls other := by
  cases h with
  | intro _ hpulls => exact hpulls other hedge.2

theorem of_reaches (h : g.Grounded pulls id) {other : String}
    (hreaches : g.Reaches pulls id other) : g.Grounded pulls other := by
  induction hreaches with
  | refl => exact h
  | tail _ hedge ih => exact ih.of_edge hedge

theorem not_transGen (h : g.Grounded pulls id) :
    ¬ Relation.TransGen (g.Edge pulls) id id := by
  induction h with
  | @intro id _ _ ih =>
      intro hloop
      -- the same loop, entered one node later
      obtain ⟨next, hedge, hback⟩ := Relation.TransGen.head'_iff.mp hloop
      exact ih next hedge.2 (Relation.TransGen.tail' hback hedge)

end Grounded

/-!
# What an error shows
-/

/-- Errors that show what is wrong with the nodes that a node leads to. -/
inductive Explains (g : FactGraph γ) (pulls : String -> List String) (root : String) :
    GraphError -> Prop where
  | notFound {id : String} (requestedBy : Option String) :
      g.Reaches pulls root id -> g.contains id = false ->
      Explains g pulls root (.notFound id requestedBy)
  | cyclic {path : List String} :
      g.IsCycle pulls path -> (∀ id ∈ path, g.Reaches pulls root id) ->
      Explains g pulls root (.cyclic path)

namespace Explains

variable {g : FactGraph γ} {pulls : String -> List String} {id : String} {e : GraphError}

theorem of_edge {other : String} (h : g.Explains pulls other e) (hedge : g.Edge pulls id other) :
    g.Explains pulls id e := by
  cases h with
  | notFound requestedBy hreaches hmissing =>
      exact .notFound requestedBy (.head hedge hreaches) hmissing
  | cyclic hcycle hreaches =>
      exact .cyclic hcycle fun member hmember => .head hedge (hreaches member hmember)

theorem not_declared_acyclic (h : g.Explains pulls id e) :
    ¬ ((∀ other, g.Reaches pulls id other -> g.contains other = true) ∧
      ¬ ∃ other, g.Reaches pulls id other ∧ Relation.TransGen (g.Edge pulls) other other) := by
  rintro ⟨hdeclared, hacyclic⟩
  cases h with
  | @notFound other _ hreaches hmissing =>
      rw [hdeclared other hreaches] at hmissing
      cases hmissing
  | cyclic hcycle hreaches =>
      obtain ⟨start, hstart, hloop⟩ := hcycle.transGen
      exact hacyclic ⟨start, hreaches start hstart, hloop⟩

end Explains

/-!
# The search
-/

section Search

variable {g : FactGraph γ} {context : γ} {pulls : String -> List String}

def Sound (g : FactGraph γ) (pulls : String -> List String) (p : Progress) : Prop :=
  ∀ id value, p.memo.get? id = some value -> g.Grounded pulls id

/-- An answer for a node is a value if the node is grounded, and else an error that shows why it
is not. -/
def Settles (g : FactGraph γ) (pulls : String -> List String) (id : String) :
    Except GraphError Json -> Prop
  | .ok _ => g.Grounded pulls id
  | .error e => g.Explains pulls id e

def SettlesAll (g : FactGraph γ) (pulls : String -> List String) (ids : List String) :
    Except GraphError Json -> Prop
  | .ok _ => ∀ id ∈ ids, g.Grounded pulls id
  | .error e => ∃ id ∈ ids, g.Explains pulls id e

theorem SettlesAll.cons {id : String} {ids : List String} {result : Except GraphError Json}
    (hid : g.Grounded pulls id) (h : g.SettlesAll pulls ids result) :
    g.SettlesAll pulls (id :: ids) result := by
  cases result with
  | ok value =>
      intro other hother
      rcases List.mem_cons.mp hother with heq | hmem
      · rw [heq]
        exact hid
      · exact h other hmem
  | error e =>
      obtain ⟨other, hother, hexplains⟩ := h
      exact ⟨other, List.mem_cons_of_mem id hother, hexplains⟩

theorem run_settles {ask : String -> Progress -> Except GraphError Json × Progress}
    {program : Pull (Except GraphError Json)} {ids : List String} (hprogram : program.Pulls ids)
    (hask : ∀ id ∈ ids, ∀ p, g.Sound pulls p ->
      g.Settles pulls id (ask id p).1 ∧ g.Sound pulls (ask id p).2)
    (node : Option String) {p : Progress} (hp : g.Sound pulls p) :
    g.SettlesAll pulls ids (program.run ask node p).1 ∧
      g.Sound pulls (program.run ask node p).2 := by
  induction hprogram generalizing p with
  | done value => exact ⟨fun id hid => absurd hid List.not_mem_nil, hp⟩
  | @get id ids next hpass _ ih =>
      obtain ⟨hsettles, hafter⟩ := hask id List.mem_cons_self p hp
      show g.SettlesAll pulls (id :: ids) ((next (ask id p).1).run ask node (ask id p).2).1 ∧
        g.Sound pulls ((next (ask id p).1).run ask node (ask id p).2).2
      cases hanswer : (ask id p).1 with
      | error e =>
          -- the program stops here, with the error that it was answered
          rw [hanswer] at hsettles
          rw [hpass e]
          exact ⟨⟨id, List.mem_cons_self, hsettles⟩, hafter⟩
      | ok value =>
          rw [hanswer] at hsettles
          obtain ⟨hrest, hend⟩ := ih value
            (fun other hother => hask other (List.mem_cons_of_mem id hother)) hafter
          exact ⟨hrest.cons hsettles, hend⟩
  | current _ ih => exact ih node hask hp
  | look _ ih => exact ih p.order p.memo hask hp

theorem pull_settles (h : g.HasPulls context pulls) (active : List String) {id : String}
    (hchain : (id :: active).IsChain (flip (g.Edge pulls))) {p : Progress}
    (hp : g.Sound pulls p) :
    g.Settles pulls id (g.pull context active id p).1 ∧
      g.Sound pulls (g.pull context active id p).2 := by
  cases hmemo : p.memo.get? id with
  | some value =>
      rw [pull_of_known hmemo]
      exact ⟨hp id value hmemo, hp⟩
  | none =>
      cases hnode : g.nodes.get? id with
      | none =>
          have hmissing : g.contains id = false := by
            rw [contains_eq_isSome, hnode]
            rfl
          rw [pull_of_undeclared hmemo hnode]
          exact ⟨.notFound _ .refl hmissing, hp⟩
      | some node =>
          by_cases hactive : id ∈ active
          · have hcycle := isCycle_cycle hchain hactive
            rw [pull_of_active hmemo hnode hactive]
            exact ⟨.cyclic hcycle fun other hother => reaches_of_isChain hcycle.2 hother, hp⟩
          · have hcontains : g.contains id = true := by
              rw [contains_eq_isSome, hnode]
              rfl
            -- one more node is active inside, so fewer are left to become so
            have hinner (other : String) (hother : other ∈ pulls id) (p : Progress)
                (hp : g.Sound pulls p) :
                g.Settles pulls other (g.pull context (id :: active) other p).1 ∧
                  g.Sound pulls (g.pull context (id :: active) other p).2 :=
              pull_settles h (id :: active)
                (List.isChain_cons_cons.mpr ⟨⟨hcontains, hother⟩, hchain⟩) hp
            have hstart : g.Sound pulls { p with started := p.started ++ [id] } := hp
            obtain ⟨hresult, hend⟩ := run_settles (h id node hnode) hinner (some id) hstart
            rw [pull_of_idle hmemo hnode hactive]
            generalize (node.compute context).run (g.pull context (id :: active)) (some id)
              { p with started := p.started ++ [id] } = ending at hresult hend
            rcases ending with ⟨result, q⟩
            cases result with
            | error e =>
                obtain ⟨other, hother, hexplains⟩ := hresult
                exact ⟨hexplains.of_edge ⟨hcontains, hother⟩, hend⟩
            | ok value =>
                have hgrounded : g.Grounded pulls id := .intro hcontains hresult
                refine ⟨hgrounded, ?_⟩
                intro other found hfound
                by_cases hsame : id = other
                · exact hsame ▸ hgrounded
                · change (q.memo.insert id value).get? other = some found at hfound
                  rw [Table.get?_insert_of_ne _ _ hsame] at hfound
                  exact hend other found hfound
termination_by (g.idle active).length
decreasing_by exact length_idle_cons_lt hnode hactive

end Search

/-!
# The answer for a node asked for first
-/

theorem pull_ok_iff_declared_acyclic {g : FactGraph γ} {context : γ}
    {pulls : String -> List String} (h : g.HasPulls context pulls) (root : String) :
    ((∃ value, (g.pull context [] root {}).1 = .ok value) ↔
      (∀ id, g.Reaches pulls root id -> g.contains id = true) ∧
        ¬ ∃ id, g.Reaches pulls root id ∧ Relation.TransGen (g.Edge pulls) id id) ∧
    ∀ e, (g.pull context [] root {}).1 = .error e ->
      (∃ id requestedBy, e = .notFound id requestedBy ∧
        g.Reaches pulls root id ∧ g.contains id = false) ∨
      (∃ path, e = .cyclic path ∧
        g.IsCycle pulls path ∧ ∀ id ∈ path, g.Reaches pulls root id) := by
  have hfresh : g.Sound pulls {} := fun id value hvalue => nomatch hvalue
  have hsettles := (pull_settles h [] (List.isChain_singleton root) hfresh).1
  cases hanswer : (g.pull context [] root {}).1 with
  | ok value =>
      rw [hanswer] at hsettles
      refine ⟨⟨fun _ => ⟨?_, ?_⟩, fun _ => ⟨value, rfl⟩⟩, fun e he => nomatch he⟩
      · intro id hreaches
        exact (hsettles.of_reaches hreaches).contains
      · rintro ⟨id, hreaches, hloop⟩
        exact (hsettles.of_reaches hreaches).not_transGen hloop
  | error e =>
      rw [hanswer] at hsettles
      constructor
      · constructor
        · rintro ⟨value, hvalue⟩
          cases hvalue
        · intro hfine
          exact absurd hfine hsettles.not_declared_acyclic
      · rintro _ ⟨⟩
        cases hsettles with
        | notFound requestedBy hreaches hmissing =>
            exact .inl ⟨_, requestedBy, rfl, hreaches, hmissing⟩
        | cyclic hcycle hreaches => exact .inr ⟨_, rfl, hcycle, hreaches⟩

/-- A cycle behind a node that is computed already, beside a node that has a value. -/
theorem pull_ok_iff_declared_acyclic_loop :
    let pulls : String -> List String
      | "a" => ["leaf", "b"]
      | "b" => ["leaf", "c"]
      | "c" => ["leaf", "b"]
      | _ => []
    let node (id : String) : Node Unit :=
      { id, compute := fun _ => Pull.chain (.str id) (pulls id) }
    let g : FactGraph Unit :=
      { nodes := [("a", node "a"), ("b", node "b"), ("c", node "c"), ("leaf", node "leaf")] }
    g.HasPulls () pulls ∧
      (∃ value, (g.pull () [] "leaf" {}).1 = .ok value) ∧
      ¬ ∃ value, (g.pull () [] "a" {}).1 = .ok value := by
  intro pulls node g
  have hpulls : g.HasPulls () pulls := by
    intro id found hfound
    have hnode : found = node id := by
      simp only [g, Table.get?] at hfound
      repeat' split at hfound
      all_goals cases hfound
      all_goals subst_vars
      all_goals rfl
    rw [hnode]
    exact Pull.pulls_chain (.str id) (pulls id)
  refine ⟨hpulls, ?_, ?_⟩
  · have hleaf (id : String) (hreaches : g.Reaches pulls "leaf" id) : id = "leaf" := by
      rcases Relation.ReflTransGen.cases_head hreaches with heq | ⟨next, hedge, _⟩
      · exact heq.symm
      · exact absurd hedge.2 List.not_mem_nil
    apply (pull_ok_iff_declared_acyclic hpulls "leaf").1.mpr
    constructor
    · intro id hreaches
      rw [hleaf id hreaches]
      rfl
    · rintro ⟨id, hreaches, hloop⟩
      obtain ⟨next, hedge, _⟩ := Relation.TransGen.head'_iff.mp hloop
      rw [hleaf id hreaches] at hedge
      exact absurd hedge.2 List.not_mem_nil
  · intro hvalue
    obtain ⟨_, hacyclic⟩ := (pull_ok_iff_declared_acyclic hpulls "a").1.mp hvalue
    have hab : g.Edge pulls "a" "b" := ⟨rfl, by decide⟩
    have hbc : g.Edge pulls "b" "c" := ⟨rfl, by decide⟩
    have hcb : g.Edge pulls "c" "b" := ⟨rfl, by decide⟩
    exact hacyclic ⟨"b", .single hab, .tail (.single hbc) hcb⟩

end FactGraph
end Reckoner
