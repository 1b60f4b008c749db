import Reckoner.Proofs.Graph.Recompute

/-!
# Memory changes no answer

For obedient programs a resolution that keeps its values gives the answers of plain
recursion, errors and the cycles in them included.

What carries the proof is how a memory has come about.  Every value in it was
computed from values that were in it before, so a memory holds whatever its values
were computed from, and none of the nodes that are still being computed.  Computing a
value of it again therefore never meets one of those nodes: the value does not depend
on the nodes that were being computed when it was entered.
-/

namespace Reckoner

namespace Progress

def remembered (memo : Table Json) (id : String) : Except GraphError Json :=
  match memo.get? id with
  | some value => .ok value
  | none => .error (.notFound id none)

theorem remembered_eq_ok {memo : Table Json} {id : String} {value : Json} :
    remembered memo id = .ok value ↔ memo.get? id = some value := by
  unfold remembered
  cases memo.get? id with
  | none => simp
  | some found => simp

def Grows (p q : Progress) : Prop :=
  ∀ id value, p.memo.get? id = some value -> q.memo.get? id = some value

theorem Grows.refl (p : Progress) : p.Grows p := by
  intro id value hvalue
  exact hvalue

theorem Grows.trans {p q r : Progress} (hpq : p.Grows q) (hqr : q.Grows r) : p.Grows r := by
  intro id value hvalue
  exact hqr id value (hpq id value hvalue)

end Progress

namespace FactGraph

open Progress

variable {γ : Type}

/-!
# Earned memories
-/

/-- A memory that has come about value by value, each computed from those before it. -/
inductive Earned (g : FactGraph γ) (context : γ) : Table Json -> Prop where
  | empty : Earned g context []
  | insert {memo : Table Json} {id : String} {node : Node γ} {value : Json} :
      Earned g context memo ->
      memo.get? id = none ->
      g.nodes.get? id = some node ->
      (node.compute context).follow (remembered memo) (some id) = .ok value ->
      Earned g context (memo.insert id value)

theorem recompute_of_earned {g : FactGraph γ} {context : γ} (hobedient : g.Obedient context)
    {memo : Table Json} (hearned : g.Earned context memo) {active : List String}
    (hpending : ∀ other ∈ active, memo.get? other = none) {id : String} {value : Json}
    (hmemo : memo.get? id = some value) :
    g.recompute context active id = .ok value := by
  induction hearned generalizing active id value with
  | empty => cases hmemo
  | @insert memo new node found _ hnew hnode hfound ih =>
      have hother (other : String) (hother : other ∈ active) : new ≠ other := by
        intro hsame
        have hnone := hpending other hother
        rw [← hsame, Table.get?_insert_self] at hnone
        cases hnone
      have hbefore (other : String) (hmem : other ∈ active) : memo.get? other = none := by
        have hnone := hpending other hmem
        rwa [Table.get?_insert_of_ne memo found (hother other hmem)] at hnone
      by_cases hsame : new = id
      · rw [← hsame] at hmemo ⊢
        rw [Table.get?_insert_self] at hmemo
        have hidle : new ∉ active := fun hmem => hother new hmem rfl
        rw [recompute_of_idle hnode hidle]
        have hwithin (other : String) (hmem : other ∈ new :: active) :
            memo.get? other = none := by
          rcases List.mem_cons.mp hmem with heq | hmem
          · rw [heq]
            exact hnew
          · exact hbefore other hmem
        rw [← Option.some.inj hmemo]
        apply Pull.follow_eq_ok_of_agree (hobedient new node hnode) _ hfound
        intro other answer hremembered
        exact ih hwithin (remembered_eq_ok.mp hremembered)
      · rw [Table.get?_insert_of_ne memo found hsame] at hmemo
        exact ih hbefore hmemo

/-!
# One question
-/

structure Resolving (g : FactGraph γ) (context : γ) (active : List String) (p : Progress) :
    Prop where
  earned : g.Earned context p.memo
  pending : ∀ id ∈ active, p.memo.get? id = none

def Answers (g : FactGraph γ) (context : γ) (active : List String)
    (ask : String -> Progress -> Except GraphError Json × Progress)
    (answer : String -> Except GraphError Json) : Prop :=
  ∀ id p, g.Resolving context active p ->
    (ask id p).1 = answer id ∧
    g.Resolving context active (ask id p).2 ∧
    p.Grows (ask id p).2 ∧
    ∀ value, answer id = .ok value -> (ask id p).2.memo.get? id = some value

theorem run_answers {g : FactGraph γ} {context : γ} {active : List String}
    {ask : String -> Progress -> Except GraphError Json × Progress}
    {answer : String -> Except GraphError Json}
    (hask : g.Answers context active ask answer)
    {program : Pull (Except GraphError Json)} (hprogram : program.Obedient)
    (node : Option String) {p : Progress} (hp : g.Resolving context active p) :
    (program.run ask node p).1 = program.follow answer node ∧
    g.Resolving context active (program.run ask node p).2 ∧
    p.Grows (program.run ask node p).2 ∧
    ∀ value, program.follow answer node = .ok value ->
      program.follow (remembered (program.run ask node p).2.memo) node = .ok value := by
  induction hprogram generalizing p with
  | done result => exact ⟨rfl, hp, Grows.refl p, fun value hvalue => hvalue⟩
  | @get id next hpass _ ih =>
      obtain ⟨hsame, hafter, hgrows, hkept⟩ := hask id p hp
      have hrun : (Pull.get id next).run ask node p =
          (next (answer id)).run ask node (ask id p).2 := by
        rw [← hsame]
        rfl
      rw [hrun]
      unfold Pull.follow
      cases hanswer : answer id with
      | error e =>
          rw [hpass e]
          refine ⟨rfl, hafter, hgrows, ?_⟩
          intro value hvalue
          cases hvalue
      | ok found =>
          obtain ⟨hresult, hend, hmore, hagain⟩ := ih found hafter
          have hremembered := remembered_eq_ok.mpr (hmore id found (hkept found hanswer))
          refine ⟨hresult, hend, hgrows.trans hmore, ?_⟩
          intro value hvalue
          rw [hremembered]
          exact hagain value hvalue
  | current _ ih => exact ih node hp

/-!
# The step from the nodes inside to the node around them
-/

theorem finish_answers {g : FactGraph γ} {context : γ} {active : List String} {id : String}
    {node : Node γ} (hnode : g.nodes.get? id = some node) (hidle : id ∉ active)
    {p : Progress} (hmemo : p.memo.get? id = none)
    {result : Except GraphError Json} {q : Progress}
    (hq : g.Resolving context (id :: active) q) (hgrows : p.Grows q)
    (hagain : ∀ value, result = .ok value ->
      (node.compute context).follow (remembered q.memo) (some id) = .ok value) :
    (finish id (result, q)).1 = result ∧
    g.Resolving context active (finish id (result, q)).2 ∧
    p.Grows (finish id (result, q)).2 ∧
    ∀ value, result = .ok value -> (finish id (result, q)).2.memo.get? id = some value := by
  have hopen : q.memo.get? id = none := hq.pending id List.mem_cons_self
  cases result with
  | error e =>
      refine ⟨rfl, ⟨hq.earned, ?_⟩, hgrows, ?_⟩
      · intro other hother
        exact hq.pending other (List.mem_cons_of_mem id hother)
      · intro value hvalue
        cases hvalue
  | ok found =>
      refine ⟨rfl, ⟨?_, ?_⟩, ?_, ?_⟩
      · exact Earned.insert hq.earned hopen hnode (hagain found rfl)
      · intro other hother
        have hne : id ≠ other := fun hsame => hidle (hsame ▸ hother)
        show (q.memo.insert id found).get? other = none
        rw [Table.get?_insert_of_ne _ _ hne]
        exact hq.pending other (List.mem_cons_of_mem id hother)
      · intro other value hvalue
        have hne : id ≠ other := by
          intro hsame
          rw [← hsame, hmemo] at hvalue
          cases hvalue
        show (q.memo.insert id found).get? other = some value
        rw [Table.get?_insert_of_ne _ _ hne]
        exact hgrows other value hvalue
      · intro value hvalue
        cases hvalue
        exact Table.get?_insert_self q.memo id found

theorem pull_answers {g : FactGraph γ} {context : γ} (hobedient : g.Obedient context)
    (active : List String) :
    g.Answers context active (g.pull context active) (g.recompute context active) := by
  intro id p hp
  cases hmemo : p.memo.get? id with
  | some value =>
      have hvalue := recompute_of_earned hobedient hp.earned hp.pending hmemo
      rw [pull_of_known hmemo, hvalue]
      refine ⟨rfl, hp, Grows.refl p, ?_⟩
      intro other hother
      cases hother
      exact hmemo
  | none =>
      cases hnode : g.nodes.get? id with
      | none =>
          rw [pull_of_undeclared hmemo hnode, recompute_of_undeclared hnode]
          refine ⟨rfl, hp, Grows.refl p, ?_⟩
          intro value hvalue
          cases hvalue
      | some node =>
          by_cases hactive : id ∈ active
          · rw [pull_of_active hmemo hnode hactive, recompute_of_active hnode hactive]
            refine ⟨rfl, hp, Grows.refl p, ?_⟩
            intro value hvalue
            cases hvalue
          · -- one more node is active inside, so fewer are left to become so
            have hinner := pull_answers hobedient (id :: active)
            have hstart : g.Resolving context (id :: active)
                { p with started := p.started ++ [id] } := by
              refine ⟨hp.earned, ?_⟩
              intro other hother
              rcases List.mem_cons.mp hother with heq | hmem
              · rw [heq]
                exact hmemo
              · exact hp.pending other hmem
            obtain ⟨hresult, hend, hgrows, hagain⟩ :=
              run_answers hinner (hobedient id node hnode) (some id) hstart
            rw [pull_of_idle hmemo hnode hactive, recompute_of_idle hnode hactive, ← hresult]
            rw [← hresult] at hagain
            exact finish_answers hnode hactive hmemo hend hgrows hagain
termination_by (g.idle active).length
decreasing_by exact length_idle_cons_lt hnode hactive

/-!
# Any number of questions
-/

def progressAfter (g : FactGraph γ) (context : γ) (ids : List String) : Progress :=
  ids.foldl (fun p id => (g.pull context [] id p).2) {}

theorem resolving_foldl {g : FactGraph γ} {context : γ} (hobedient : g.Obedient context)
    (ids : List String) {p : Progress} (hp : g.Resolving context [] p) :
    g.Resolving context [] (ids.foldl (fun p id => (g.pull context [] id p).2) p) := by
  induction ids generalizing p with
  | nil => exact hp
  | cons id rest ih =>
      obtain ⟨_, hafter, _⟩ := pull_answers hobedient [] id p hp
      exact ih hafter

theorem pull_eq_recompute {g : FactGraph γ} {context : γ} (hobedient : g.Obedient context)
    (earlier : List String) (id : String) :
    (g.pull context [] id (g.progressAfter context earlier)).1 =
      g.recompute context [] id := by
  have hstart : g.Resolving context [] {} :=
    ⟨Earned.empty, fun other hother => absurd hother List.not_mem_nil⟩
  have hreached := resolving_foldl hobedient earlier hstart
  exact (pull_answers hobedient [] id _ hreached).1

/-- A cycle that is entered by the answer of a node computed before, and met again from
another side. -/
theorem pull_eq_recompute_cycle :
    let chosen : Except GraphError Json -> Pull (Except GraphError Json)
      | .ok (.bool true) => .get "c" .done
      | .ok value => .done (.ok value)
      | .error e => .done (.error e)
    let g : FactGraph Unit :=
      { nodes := [
          ("a", { id := "a", compute := fun _ => .get "b" .done }),
          ("b", { id := "b", compute := fun _ => .get "leaf" chosen }),
          ("c", { id := "c", compute := fun _ => .get "b" .done }),
          ("leaf", { id := "leaf", compute := fun _ => .done (.ok (.bool true)) })] }
    g.Obedient () ∧
      (g.pull () [] "c" (g.progressAfter () ["leaf", "a"])).1 = g.recompute () [] "c" ∧
      g.recompute () [] "c" = .error (.cyclic ["c", "b", "c"]) := by
  intro chosen g
  have hpass (id : String) : (Pull.get id .done).Obedient :=
    .get (fun _ => rfl) fun value => .done (.ok value)
  have hchosen : (Pull.get "leaf" chosen).Obedient := by
    refine .get (fun _ => rfl) fun value => ?_
    unfold chosen
    split
    · exact hpass "c"
    · exact .done _
    · exact .done _
  have hobedient : g.Obedient () := by
    intro id node hnode
    simp only [g, Table.get?] at hnode
    split at hnode
    · cases hnode
      exact hpass "b"
    split at hnode
    · cases hnode
      exact hchosen
    split at hnode
    · cases hnode
      exact hpass "b"
    split at hnode
    · cases hnode
      exact .done _
    · cases hnode
  refine ⟨hobedient, pull_eq_recompute hobedient ["leaf", "a"] "c", ?_⟩
  have hb : g.nodes.get? "b" = some { id := "b", compute := fun _ => .get "leaf" chosen } := rfl
  have hc : g.nodes.get? "c" = some { id := "c", compute := fun _ => .get "b" .done } := rfl
  have hl : g.nodes.get? "leaf" =
      some { id := "leaf", compute := fun _ => .done (.ok (.bool true)) } := rfl
  have hleaf : g.recompute () ["b", "c"] "leaf" = .ok (.bool true) :=
    recompute_of_idle hl (by decide) ()
  have hactive : g.recompute () ["b", "c"] "c" = .error (.cyclic ["c", "b", "c"]) :=
    recompute_of_active hc (by decide) ()
  have hinner : g.recompute () ["c"] "b" = .error (.cyclic ["c", "b", "c"]) := by
    rw [recompute_of_idle hb (by decide)]
    show (chosen (g.recompute () ["b", "c"] "leaf")).follow _ _ = _
    rw [hleaf]
    exact hactive
  rw [recompute_of_idle hc (by decide)]
  exact hinner

end FactGraph
end Reckoner
