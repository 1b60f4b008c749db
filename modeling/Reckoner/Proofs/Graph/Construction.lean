import Reckoner.Graph.Resolve
import Reckoner.Proofs.Table

/-!
# Building graphs

A graph can be built of nodes exactly if their names are all different.  It then holds
these nodes in the order of their names, whatever the order in which they were given;
otherwise the first node whose name has occurred before is rejected.  A rejected node
leaves no trace, so a graph that nodes are offered to one after another is the graph of
the nodes that it has accepted.

The dependencies that a graph lacks are listed node by node.  With the names of the
nodes all different, the part of the list that belongs to a node can be told from the
rest, and it is what the node declares, less what the graph has.
-/

namespace Reckoner
namespace FactGraph

variable {γ : Type}

def entry (node : Node γ) : String × Node γ :=
  (node.id, node)

/-- A graph holds just the nodes of a sequence, each under its own name. -/
structure Holds (g : FactGraph γ) (nodes : List (Node γ)) : Prop where
  sorted : g.nodes.Sorted
  entries : List.Perm g.nodes (nodes.map entry)

/-- A node is the first one of a sequence whose name has occurred before. -/
def FirstRepeated (nodes : List (Node γ)) (node : Node γ) : Prop :=
  ∃ before after, nodes = before ++ node :: after ∧
    (before.map Node.id).Nodup ∧ node.id ∈ before.map Node.id

/-!
# One node more
-/

theorem insert_of_contains {g : FactGraph γ} {node : Node γ} (h : g.contains node.id = true) :
    g.insert node = (.error (.duplicate node.id), g) :=
  if_pos h

theorem insert_of_not_contains {g : FactGraph γ} {node : Node γ}
    (h : ¬ g.contains node.id = true) :
    g.insert node = (.ok (), { nodes := g.nodes.insert node.id node }) :=
  if_neg h

theorem contains_of_insert {g : FactGraph γ} {node : Node γ} {e : GraphError}
    (h : (g.insert node).1 = .error e) : g.contains node.id = true := by
  by_contra hnew
  rw [insert_of_not_contains hnew] at h
  cases h

namespace Holds

variable {g : FactGraph γ} {nodes : List (Node γ)}

theorem ids_perm (h : g.Holds nodes) : g.ids.Perm (nodes.map Node.id) := by
  have hkeys := h.entries.map Prod.fst
  rw [List.map_map] at hkeys
  exact hkeys

theorem values_perm (h : g.Holds nodes) : g.nodes.values.Perm nodes := by
  have hvalues := h.entries.map Prod.snd
  rw [List.map_map] at hvalues
  have hself : nodes.map (Prod.snd ∘ entry) = nodes := List.map_id nodes
  rwa [hself] at hvalues

theorem contains_iff (h : g.Holds nodes) {id : String} :
    g.contains id = true ↔ id ∈ nodes.map Node.id :=
  Table.contains_iff_mem_keys.trans h.ids_perm.mem_iff

theorem nodup (h : g.Holds nodes) : (nodes.map Node.id).Nodup :=
  h.ids_perm.nodup_iff.mp h.sorted.nodup_keys

/-- A graph is settled by the nodes that it holds, whatever their order. -/
theorem eq_of_perm {g' : FactGraph γ} {nodes' : List (Node γ)} (h : g.Holds nodes)
    (h' : g'.Holds nodes') (hperm : nodes'.Perm nodes) : g' = g := by
  rcases g with ⟨table⟩
  rcases g' with ⟨table'⟩
  have hentries : List.Perm table' table :=
    (h'.entries.trans (hperm.map entry)).trans h.entries.symm
  exact congrArg FactGraph.mk (h'.sorted.eq_of_perm h.sorted hentries)

theorem empty : Holds ({} : FactGraph γ) [] where
  sorted := List.Pairwise.nil
  entries := .refl []

theorem insert (h : g.Holds nodes) {node : Node γ} (hnew : node.id ∉ nodes.map Node.id) :
    Holds { nodes := g.nodes.insert node.id node } (nodes ++ [node]) where
  sorted := h.sorted.insert node.id node
  entries := by
    have hapart : ∀ other ∈ g.nodes, other.1 ≠ node.id := by
      intro other hother hsame
      apply hnew
      rw [← hsame]
      exact h.ids_perm.mem_iff.mp (List.mem_map_of_mem hother)
    rw [List.map_append]
    exact (Table.insert_perm node hapart).trans
      ((h.entries.cons (entry node)).trans (List.perm_append_singleton _ _).symm)

end Holds

/-!
# Sequences of nodes

A sequence of nodes is looked at from its end: what is built of it is what one more node
makes of what is built of the others.
-/

theorem insertAll_append (g : FactGraph γ) (nodes more : List (Node γ)) :
    g.insertAll (nodes ++ more) = (g.insertAll nodes).bind fun grown => grown.insertAll more := by
  induction nodes generalizing g with
  | nil => rfl
  | cons node nodes ih =>
      by_cases h : g.contains node.id = true
      · simp only [List.cons_append, insertAll, insert_of_contains h]
        rfl
      · simp only [List.cons_append, insertAll, insert_of_not_contains h]
        exact ih _

theorem ofNodes_append (nodes more : List (Node γ)) :
    ofNodes (nodes ++ more) = (ofNodes nodes).bind fun g => g.insertAll more :=
  insertAll_append {} nodes more

theorem insertAll_of_contains {g : FactGraph γ} {node : Node γ} (h : g.contains node.id = true)
    (nodes : List (Node γ)) : g.insertAll (node :: nodes) = .error (.duplicate node.id) := by
  rw [insertAll, insert_of_contains h]

theorem insertAll_singleton {g : FactGraph γ} {node : Node γ}
    (h : ¬ g.contains node.id = true) :
    g.insertAll [node] = .ok { nodes := g.nodes.insert node.id node } := by
  rw [insertAll, insert_of_not_contains h]
  rfl

theorem exists_holds_of_nodup {nodes : List (Node γ)} (h : (nodes.map Node.id).Nodup) :
    ∃ g, ofNodes nodes = .ok g ∧ g.Holds nodes := by
  induction nodes using List.reverseRecOn with
  | nil => exact ⟨{}, rfl, Holds.empty⟩
  | append_singleton nodes node ih =>
      rw [List.map_append] at h
      rcases List.nodup_append.mp h with ⟨hbefore, _, hapart⟩
      have hnew : node.id ∉ nodes.map Node.id :=
        fun hmem => hapart _ hmem _ (List.mem_singleton_self _) rfl
      rcases ih hbefore with ⟨g, hg, hholds⟩
      have hlacks : ¬ g.contains node.id = true := fun hmem => hnew (hholds.contains_iff.mp hmem)
      refine ⟨_, ?_, hholds.insert hnew⟩
      rw [ofNodes_append, hg]
      exact insertAll_singleton hlacks

theorem ofNodes_of_firstRepeated {nodes : List (Node γ)} {node : Node γ}
    (h : FirstRepeated nodes node) : ofNodes nodes = .error (.duplicate node.id) := by
  rcases h with ⟨before, after, hnodes, hdistinct, hmem⟩
  rcases exists_holds_of_nodup hdistinct with ⟨g, hg, hholds⟩
  have hcontains : g.contains node.id = true := hholds.contains_iff.mpr hmem
  rw [hnodes, ofNodes_append, hg]
  exact insertAll_of_contains hcontains after

theorem exists_firstRepeated {nodes : List (Node γ)} (h : ¬ (nodes.map Node.id).Nodup) :
    ∃ node, FirstRepeated nodes node := by
  induction nodes using List.reverseRecOn with
  | nil => exact absurd List.nodup_nil h
  | append_singleton nodes node ih =>
      by_cases hbefore : (nodes.map Node.id).Nodup
      · by_cases hmem : node.id ∈ nodes.map Node.id
        · exact ⟨node, nodes, [], rfl, hbefore, hmem⟩
        · apply absurd _ h
          rw [List.map_append]
          show (nodes.map Node.id ++ [node.id]).Nodup
          rw [← List.concat_eq_append]
          exact hbefore.concat hmem
      · rcases ih hbefore with ⟨first, before, after, hnodes, hrest⟩
        refine ⟨first, before, after ++ [node], ?_, hrest⟩
        rw [hnodes, List.append_assoc]
        rfl

theorem not_nodup_of_firstRepeated {nodes : List (Node γ)} {node : Node γ}
    (h : FirstRepeated nodes node) : ¬ (nodes.map Node.id).Nodup := by
  rcases h with ⟨before, after, hnodes, _, hmem⟩
  intro hnodup
  rw [hnodes, List.map_append] at hnodup
  exact (List.nodup_append.mp hnodup).2.2 _ hmem _ List.mem_cons_self rfl

theorem ofNodes_eq_error_iff {nodes : List (Node γ)} {e : GraphError} :
    ofNodes nodes = .error e ↔ ∃ node, FirstRepeated nodes node ∧ e = .duplicate node.id := by
  constructor
  · intro he
    by_cases h : (nodes.map Node.id).Nodup
    · rcases exists_holds_of_nodup h with ⟨g, hg, _⟩
      rw [hg] at he
      cases he
    · rcases exists_firstRepeated h with ⟨node, hnode⟩
      rw [ofNodes_of_firstRepeated hnode] at he
      cases he
      exact ⟨node, hnode, rfl⟩
  · rintro ⟨node, hnode, rfl⟩
    exact ofNodes_of_firstRepeated hnode

theorem holds_of_ofNodes {nodes : List (Node γ)} {g : FactGraph γ} (h : ofNodes nodes = .ok g) :
    g.Holds nodes := by
  by_cases hnodup : (nodes.map Node.id).Nodup
  · rcases exists_holds_of_nodup hnodup with ⟨g', hg', hholds⟩
    rw [hg'] at h
    cases h
    exact hholds
  · rcases exists_firstRepeated hnodup with ⟨node, hnode⟩
    rw [ofNodes_of_firstRepeated hnode] at h
    cases h

theorem ofNodes_of_perm {nodes other : List (Node γ)} {g : FactGraph γ}
    (h : ofNodes nodes = .ok g) (hperm : other.Perm nodes) : ofNodes other = .ok g := by
  have hholds := holds_of_ofNodes h
  have hnodup : (other.map Node.id).Nodup := (hperm.map Node.id).nodup_iff.mpr hholds.nodup
  rcases exists_holds_of_nodup hnodup with ⟨g', hg', hholds'⟩
  rw [hg', hholds.eq_of_perm hholds' hperm]

theorem find?_append_of_repeated {nodes : List (Node γ)} {node : Node γ}
    (h : node.id ∈ nodes.map Node.id) (id : String) :
    (nodes ++ [node]).find? (fun other => other.id = id) =
      nodes.find? fun other => other.id = id := by
  rw [List.find?_append]
  cases hfirst : nodes.find? fun other => other.id = id with
  | some first => rfl
  | none =>
      apply List.find?_eq_none.mpr
      intro last hlast hsame
      rw [List.mem_singleton.mp hlast] at hsame
      rcases List.mem_map.mp h with ⟨before, hbefore, hnamed⟩
      have hfound := hnamed.trans (of_decide_eq_true hsame)
      exact List.find?_eq_none.mp hfirst before hbefore (decide_eq_true hfound)

/-- What is rejected leaves no trace: nodes that are offered one after another make the graph of
those that are accepted, which are the first ones of their names. -/
theorem exists_accepted (nodes : List (Node γ)) :
    ∃ accepted, accepted.Sublist nodes ∧
      (∀ id, accepted.find? (fun node => node.id = id) = nodes.find? fun node => node.id = id) ∧
      ofNodes accepted = .ok (nodes.foldl (fun g node => (g.insert node).2) {}) := by
  induction nodes using List.reverseRecOn with
  | nil => exact ⟨[], .refl [], fun _ => rfl, rfl⟩
  | append_singleton nodes node ih =>
      rcases ih with ⟨accepted, hsublist, hfirst, hbuilt⟩
      have hholds := holds_of_ofNodes hbuilt
      rw [List.foldl_append, List.foldl_cons, List.foldl_nil]
      generalize nodes.foldl (fun g node => (FactGraph.insert g node).2) {} = g at hbuilt hholds ⊢
      by_cases hcontains : g.contains node.id = true
      · have hrepeated : node.id ∈ nodes.map Node.id :=
          (hsublist.map Node.id).subset (hholds.contains_iff.mp hcontains)
        refine ⟨accepted, hsublist.trans (List.sublist_append_left nodes [node]), ?_, ?_⟩
        · intro id
          rw [find?_append_of_repeated hrepeated, hfirst id]
        · rw [insert_of_contains hcontains]
          exact hbuilt
      · refine ⟨accepted ++ [node], hsublist.append (.refl [node]), ?_, ?_⟩
        · intro id
          rw [List.find?_append, List.find?_append, hfirst id]
        · rw [ofNodes_append, hbuilt, insert_of_not_contains hcontains]
          exact insertAll_singleton hcontains

/-!
# Missing dependencies
-/

def missingOf (g : FactGraph γ) (node : Node γ) : List MissingDependency :=
  (node.deps.filter fun dep => !g.contains dep).map fun dep =>
    { node := node.id, dependency := dep }

theorem missingDependencies_eq (g : FactGraph γ) :
    g.missingDependencies = g.nodes.values.flatMap g.missingOf := rfl

theorem node_of_mem_missingOf {g : FactGraph γ} {node : Node γ} {missing : MissingDependency}
    (h : missing ∈ g.missingOf node) : missing.node = node.id := by
  rcases List.mem_map.mp h with ⟨dep, _, rfl⟩
  rfl

theorem mem_missingOf_iff {g : FactGraph γ} {node : Node γ} {missing : MissingDependency} :
    missing ∈ g.missingOf node ↔
      node.id = missing.node ∧ missing.dependency ∈ node.deps ∧
        ¬ g.contains missing.dependency = true := by
  rcases missing with ⟨name, dep⟩
  simp only [missingOf, List.mem_map, List.mem_filter, MissingDependency.mk.injEq,
    Bool.not_eq_true', Bool.not_eq_true]
  constructor
  · rintro ⟨other, hother, hname, rfl⟩
    exact ⟨hname, hother⟩
  · rintro ⟨hname, hdep⟩
    exact ⟨dep, hdep, hname, rfl⟩

/-- Among nodes of different names, what is listed under a name is listed for the one node of
that name. -/
theorem filter_flatMap_missingOf (g : FactGraph γ) {nodes : List (Node γ)}
    (hnodup : (nodes.map Node.id).Nodup) {node : Node γ} (hnode : node ∈ nodes) :
    ((nodes.flatMap g.missingOf).filter fun missing => missing.node = node.id) =
      g.missingOf node := by
  induction nodes with
  | nil => cases hnode
  | cons first rest ih =>
      rcases List.nodup_cons.mp hnodup with ⟨hfirst, hrest⟩
      rw [List.flatMap_cons, List.filter_append]
      rcases List.mem_cons.mp hnode with rfl | hmem
      · have hall : ((g.missingOf node).filter fun missing => missing.node = node.id) =
            g.missingOf node := by
          apply List.filter_eq_self.mpr
          intro missing hmissing
          exact decide_eq_true (node_of_mem_missingOf hmissing)
        have hnone : ((rest.flatMap g.missingOf).filter fun missing =>
            missing.node = node.id) = [] := by
          apply List.filter_eq_nil_iff.mpr
          intro missing hmissing hsame
          rcases List.mem_flatMap.mp hmissing with ⟨other, hother, hmem⟩
          apply hfirst
          rw [← of_decide_eq_true hsame, node_of_mem_missingOf hmem]
          exact List.mem_map_of_mem hother
        rw [hall, hnone, List.append_nil]
      · have hnone : ((g.missingOf first).filter fun missing => missing.node = node.id) = [] := by
          apply List.filter_eq_nil_iff.mpr
          intro missing hmissing hsame
          apply hfirst
          rw [← node_of_mem_missingOf hmissing, of_decide_eq_true hsame]
          exact List.mem_map_of_mem hmem
        rw [hnone, List.nil_append]
        exact ih hrest hmem

namespace Holds

variable {g : FactGraph γ} {nodes : List (Node γ)}

/-- The nodes that a graph holds are listed by their names. -/
theorem values_ordered (h : g.Holds nodes) :
    g.nodes.values.Pairwise fun a b => a.id < b.id := by
  have hown : ∀ held ∈ g.nodes, held.2.id = held.1 := by
    intro held hheld
    rcases List.mem_map.mp (h.entries.subset hheld) with ⟨node, _, rfl⟩
    rfl
  apply List.pairwise_map.mpr
  apply List.Pairwise.imp_of_mem _ h.sorted
  intro a b ha hb hbefore
  rw [hown a ha, hown b hb]
  exact hbefore

theorem missing_ordered (h : g.Holds nodes) :
    g.missingDependencies.Pairwise fun a b => a.node ≤ b.node := by
  rw [missingDependencies_eq]
  apply List.pairwise_flatMap.mpr
  constructor
  · intro node _
    apply List.pairwise_of_forall_mem_list
    intro a ha b hb
    have hsame : a.node = b.node := (node_of_mem_missingOf ha).trans (node_of_mem_missingOf hb).symm
    exact hsame ▸ String.le_refl a.node
  · apply h.values_ordered.imp
    intro first second hbefore a ha b hb
    rw [node_of_mem_missingOf ha, node_of_mem_missingOf hb]
    exact String.not_lt.mp (String.lt_asymm hbefore)

theorem mem_missing_iff (h : g.Holds nodes) {missing : MissingDependency} :
    missing ∈ g.missingDependencies ↔
      ∃ node ∈ nodes, node.id = missing.node ∧ missing.dependency ∈ node.deps ∧
        missing.dependency ∉ nodes.map Node.id := by
  rw [missingDependencies_eq, List.mem_flatMap]
  simp only [h.values_perm.mem_iff, mem_missingOf_iff, h.contains_iff]

theorem missing_of_node (h : g.Holds nodes) {node : Node γ} (hnode : node ∈ nodes) :
    (g.missingDependencies.filter fun missing => missing.node = node.id).map
        MissingDependency.dependency =
      node.deps.filter fun dep => dep ∉ nodes.map Node.id := by
  have hnodup : (g.nodes.values.map Node.id).Nodup :=
    (h.values_perm.map Node.id).nodup_iff.mpr h.nodup
  rw [missingDependencies_eq,
    filter_flatMap_missingOf g hnodup (h.values_perm.mem_iff.mpr hnode), missingOf, List.map_map]
  show (node.deps.filter fun dep => !g.contains dep).map id = _
  rw [List.map_id]
  exact Table.filter_not_contains (fun _ => h.contains_iff) node.deps

theorem missing_eq_nil_iff (h : g.Holds nodes) :
    g.missingDependencies = [] ↔
      ∀ node ∈ nodes, ∀ dep ∈ node.deps, dep ∈ nodes.map Node.id := by
  rw [List.eq_nil_iff_forall_not_mem]
  constructor
  · intro hnone node hnode dep hdep
    by_contra hlacks
    exact hnone ⟨node.id, dep⟩ (h.mem_missing_iff.mpr ⟨node, hnode, rfl, hdep, hlacks⟩)
  · intro hall missing hmissing
    rcases h.mem_missing_iff.mp hmissing with ⟨node, hnode, _, hdep, hlacks⟩
    exact hlacks (hall node hnode _ hdep)

end Holds

/-!
# Every sequence of nodes
-/

theorem ofNodes_settled (nodes : List (Node γ)) :
    ((∃ e, ofNodes nodes = .error e) ↔ ¬ (nodes.map Node.id).Nodup) ∧
    (∀ e, ofNodes nodes = .error e ↔
      ∃ node, FirstRepeated nodes node ∧ e = .duplicate node.id) ∧
    (∀ g, ofNodes nodes = .ok g ->
      g.Holds nodes ∧
      (∀ other, other.Perm nodes -> ofNodes other = .ok g) ∧
      (g.missingDependencies.Pairwise fun a b => a.node ≤ b.node) ∧
      (∀ missing, missing ∈ g.missingDependencies ↔
        ∃ node ∈ nodes, node.id = missing.node ∧ missing.dependency ∈ node.deps ∧
          missing.dependency ∉ nodes.map Node.id) ∧
      (∀ node ∈ nodes,
        (g.missingDependencies.filter fun missing => missing.node = node.id).map
            MissingDependency.dependency =
          node.deps.filter fun dep => dep ∉ nodes.map Node.id) ∧
      (g.missingDependencies = [] ↔
        ∀ node ∈ nodes, ∀ dep ∈ node.deps, dep ∈ nodes.map Node.id)) ∧
    (∀ (g : FactGraph γ) node e, (g.insert node).1 = .error e ->
      e = .duplicate node.id ∧ (g.insert node).2 = g) ∧
    ∃ accepted, accepted.Sublist nodes ∧
      (∀ id, accepted.find? (fun node => node.id = id) = nodes.find? fun node => node.id = id) ∧
      ofNodes accepted = .ok (nodes.foldl (fun g node => (g.insert node).2) {}) := by
  refine ⟨?_, fun e => ofNodes_eq_error_iff, ?_, ?_, exists_accepted nodes⟩
  · constructor
    · rintro ⟨e, he⟩
      rcases ofNodes_eq_error_iff.mp he with ⟨node, hnode, _⟩
      exact not_nodup_of_firstRepeated hnode
    · intro h
      rcases exists_firstRepeated h with ⟨node, hnode⟩
      exact ⟨_, ofNodes_of_firstRepeated hnode⟩
  · intro g hg
    have hholds := holds_of_ofNodes hg
    exact ⟨hholds, fun other hperm => ofNodes_of_perm hg hperm, hholds.missing_ordered,
      fun missing => hholds.mem_missing_iff, fun node hnode => hholds.missing_of_node hnode,
      hholds.missing_eq_nil_iff⟩
  · intro g node e he
    have hcontains := contains_of_insert he
    rw [insert_of_contains hcontains] at he ⊢
    cases he
    exact ⟨rfl, rfl⟩

end FactGraph
end Reckoner
