import Mathlib.Data.List.Basic
import Reckoner.Expr.Error

/-!
# Nodes of a value and their faults

A value is read node by node: a node before what is directly below it, and this in
order.  Here the nodes are named by the addresses at which they stand, and the order is one of
addresses, so what is said about the first fault does not follow how a reader is written.
A reader that checks each node and then reads what is below it, one value after the
other, succeeds if no node has a fault, and otherwise fails with the first fault.
-/

namespace Reckoner

namespace Json

/-!
# Addresses
-/

inductive Step where
  | item (index : Nat)
  | entry (name : String)

/-- Items are visited in the order of their indices, and entries in the order of their names. -/
inductive Step.Before : Step -> Step -> Prop where
  | item {i j : Nat} : i < j -> Before (.item i) (.item j)
  | entry {a b : String} : a < b -> Before (.entry a) (.entry b)

theorem Step.Before.irrefl {step : Step} : ¬ step.Before step := by
  intro h
  cases h with
  | item hlt => exact Nat.lt_irrefl _ hlt
  | entry hlt => exact String.lt_irrefl _ hlt

theorem Step.Before.asymm {s t : Step} (h : s.Before t) : ¬ t.Before s := by
  intro hback
  cases h with
  | item hlt =>
      cases hback with
      | item hgt => exact Nat.lt_asymm hlt hgt
  | entry hlt =>
      cases hback with
      | entry hgt => exact String.lt_asymm hlt hgt

abbrev Address := List Step

/-- A node is visited before those below it, and all that is below a step before what is below a
later one. -/
def Address.Before (p q : Address) : Prop :=
  List.Lex Step.Before p q

def itemSteps (items : List Json) : List (Step × Json) :=
  items.zipIdx.map fun entry => (.item entry.2, entry.1)

def entrySteps (entries : List (String × Json)) : List (Step × Json) :=
  entries.map fun entry => (.entry entry.1, entry.2)

theorem map_snd_itemSteps (items : List Json) : (itemSteps items).map Prod.snd = items := by
  unfold itemSteps
  rw [List.map_map]
  exact List.zipIdx_map_fst 0 items

theorem mem_of_mem_itemSteps {items : List Json} {step : Step} {child : Json}
    (h : (step, child) ∈ itemSteps items) : child ∈ items := by
  rw [← map_snd_itemSteps items]
  exact List.mem_map_of_mem h

theorem mem_of_mem_entrySteps {entries : List (String × Json)} {step : Step} {child : Json}
    (h : (step, child) ∈ entrySteps entries) : ∃ name, (name, child) ∈ entries := by
  rcases List.mem_map.mp h with ⟨⟨name, value⟩, hmem, heq⟩
  cases heq
  exact ⟨name, hmem⟩

theorem exists_step_of_mem {items : List Json} {child : Json} (h : child ∈ items) :
    ∃ step, (step, child) ∈ itemSteps items := by
  rw [← map_snd_itemSteps items] at h
  rcases List.mem_map.mp h with ⟨⟨step, value⟩, hmem, heq⟩
  cases heq
  exact ⟨step, hmem⟩

theorem sizeOf_lt_arr {items : List Json} {item : Json} (h : item ∈ items) :
    sizeOf item < sizeOf (Json.arr items) := by
  have hitem : sizeOf item < sizeOf items := List.sizeOf_lt_of_mem h
  rw [Json.arr.sizeOf_spec]
  omega

theorem sizeOf_lt_obj {entries : List (String × Json)} {name : String} {value : Json}
    (h : (name, value) ∈ entries) : sizeOf value < sizeOf (Json.obj entries) := by
  have hentry : sizeOf (name, value) < sizeOf entries := List.sizeOf_lt_of_mem h
  rw [Prod.mk.sizeOf_spec] at hentry
  rw [Json.obj.sizeOf_spec]
  omega

theorem pairwise_itemSteps (items : List Json) :
    (itemSteps items).Pairwise fun a b => a.1.Before b.1 := by
  have hindices : (items.zipIdx.map Prod.snd).Pairwise (· < ·) := by
    rw [List.zipIdx_map_snd]
    exact List.pairwise_lt_range'
  exact (List.pairwise_map.mp hindices).map _ fun _ _ hlt => .item hlt

theorem pairwise_entrySteps {entries : List (String × Json)} (h : Table.Sorted entries) :
    (entrySteps entries).Pairwise fun a b => a.1.Before b.1 :=
  h.map _ fun _ _ hlt => .entry hlt

end Json

open Json

/-!
# Readings
-/

/-- What a reader looks at: what is read directly below a value, in this order, and the faults that
a node has of its own at a depth. -/
structure Reading where
  below : Json -> List (Step × Json)
  Faulty : Nat -> Json -> EvalError -> Prop
  smaller : ∀ value, ∀ entry ∈ below value, sizeOf entry.2 < sizeOf value

namespace Reading

variable (R : Reading)

/-- What holds of a value if it holds of all that is directly below, holds of all values. -/
theorem induction {P : Json -> Prop}
    (h : ∀ value, (∀ entry ∈ R.below value, P entry.2) -> P value) (value : Json) : P value :=
  h value fun entry hentry =>
    have := R.smaller value entry hentry
    induction h entry.2
termination_by sizeOf value

inductive Node : Json -> Address -> Json -> Prop where
  | root (value : Json) : Node value [] value
  | step {value child node : Json} {step : Step} {address : Address} :
      (step, child) ∈ R.below value -> Node child address node -> Node value (step :: address) node

inductive NodeAmong (children : List (Step × Json)) : Address -> Json -> Prop where
  | step {child node : Json} {step : Step} {address : Address} :
      (step, child) ∈ children -> R.Node child address node ->
      NodeAmong children (step :: address) node

variable {R}

theorem Node.cases_iff {value : Json} {address : Address} {node : Json} :
    R.Node value address node ↔
      address = [] ∧ node = value ∨ R.NodeAmong (R.below value) address node := by
  constructor
  · intro h
    cases h with
    | root => exact Or.inl ⟨rfl, rfl⟩
    | step hstep hnode => exact Or.inr (.step hstep hnode)
  · intro h
    rcases h with ⟨rfl, rfl⟩ | h
    · exact .root node
    · cases h with
      | step hstep hnode => exact .step hstep hnode

variable (R)

def Sound (nodes : Address -> Json -> Prop) (depth : Nat) : Prop :=
  ∀ address node, nodes address node -> ∀ e, ¬ R.Faulty (address.length + depth) node e

/-- A node has a fault, and none has that is visited before. -/
def First (nodes : Address -> Json -> Prop) (depth : Nat) (e : EvalError) : Prop :=
  ∃ address node, nodes address node ∧ R.Faulty (address.length + depth) node e ∧
    ∀ other node', nodes other node' -> other.Before address ->
      ∀ e', ¬ R.Faulty (other.length + depth) node' e'

def FirstFault (value : Json) (e : EvalError) : Prop :=
  R.First (R.Node value) 0 e

variable {R}

section Side

variable {depth : Nat} {step : Step} {child value : Json} {rest : List (Step × Json)}

theorem NodeAmong.head {address : Address} {node : Json} (h : R.Node child address node) :
    R.NodeAmong ((step, child) :: rest) (step :: address) node :=
  .step List.mem_cons_self h

theorem NodeAmong.tail {address : Address} {node : Json} (h : R.NodeAmong rest address node) :
    R.NodeAmong ((step, child) :: rest) address node := by
  cases h with
  | step hstep hnode => exact .step (List.mem_cons_of_mem _ hstep) hnode

theorem NodeAmong.cons_iff {address : Address} {node : Json} :
    R.NodeAmong ((step, child) :: rest) address node ↔
      (∃ inner, address = step :: inner ∧ R.Node child inner node) ∨
        R.NodeAmong rest address node := by
  constructor
  · intro h
    cases h with
    | step hstep hnode =>
        rcases List.mem_cons.mp hstep with heq | hmem
        · cases heq
          exact Or.inl ⟨_, rfl, hnode⟩
        · exact Or.inr (.step hmem hnode)
  · rintro (⟨inner, rfl, hnode⟩ | h)
    · exact .head hnode
    · exact .tail h

theorem length_step (address : Address) :
    (step :: address).length + depth = address.length + (depth + 1) := by
  rw [List.length_cons, Nat.add_assoc, Nat.add_comm 1 depth]

theorem sound_cons :
    R.Sound (R.NodeAmong ((step, child) :: rest)) depth ↔
      R.Sound (R.Node child) (depth + 1) ∧ R.Sound (R.NodeAmong rest) depth := by
  constructor
  · intro h
    constructor
    · intro address node hnode
      rw [← length_step address]
      exact h (step :: address) node (.head hnode)
    · exact fun address node hnode => h address node hnode.tail
  · rintro ⟨hchild, hrest⟩ address node hnode
    rcases NodeAmong.cons_iff.mp hnode with ⟨inner, rfl, hinner⟩ | hmore
    · rw [length_step inner]
      exact hchild inner node hinner
    · exact hrest address node hmore

theorem NodeAmong.before (hbefore : ∀ entry ∈ rest, step.Before entry.1) {address : Address}
    {node : Json} (h : R.NodeAmong rest address node) (inner : Address) :
    Address.Before (step :: inner) address ∧ ¬ Address.Before address (step :: inner) := by
  cases h with
  | step hstep hnode =>
      have hlt := hbefore _ hstep
      constructor
      · exact .rel hlt
      · intro hback
        cases hback with
        | rel hgt => exact hlt.asymm hgt
        | cons _ => exact hlt.irrefl

theorem before_cons_iff {p q : Address} :
    Address.Before (step :: p) (step :: q) ↔ p.Before q := by
  constructor
  · intro h
    cases h with
    | rel hlt => exact absurd hlt Step.Before.irrefl
    | cons hrest => exact hrest
  · exact .cons

/-- The first fault among values side by side is that of the first value, or there is none in it
and it is the first one in those after it. -/
theorem first_cons (hbefore : ∀ entry ∈ rest, step.Before entry.1) {e : EvalError} :
    R.First (R.NodeAmong ((step, child) :: rest)) depth e ↔
      R.First (R.Node child) (depth + 1) e ∨
        R.Sound (R.Node child) (depth + 1) ∧ R.First (R.NodeAmong rest) depth e := by
  constructor
  · rintro ⟨address, node, hnode, hfault, hfirst⟩
    rcases NodeAmong.cons_iff.mp hnode with ⟨inner, rfl, hinner⟩ | hmore
    · left
      rw [length_step inner] at hfault
      refine ⟨inner, node, hinner, hfault, ?_⟩
      intro other node' hother hlt
      rw [← length_step other]
      exact hfirst (step :: other) node' (.head hother) (before_cons_iff.mpr hlt)
    · right
      constructor
      · intro other node' hother
        rw [← length_step other]
        exact hfirst (step :: other) node' (.head hother) (hmore.before hbefore other).1
      · refine ⟨address, node, hmore, hfault, ?_⟩
        exact fun other node' hother => hfirst other node' hother.tail
  · rintro (⟨inner, node, hinner, hfault, hfirst⟩ | ⟨hsound, address, node, hnode, hfault, hfirst⟩)
    · rw [← length_step inner] at hfault
      refine ⟨step :: inner, node, .head hinner, hfault, ?_⟩
      intro other node' hother hlt
      rcases NodeAmong.cons_iff.mp hother with ⟨inner', rfl, hinner'⟩ | hmore
      · rw [length_step inner']
        exact hfirst inner' node' hinner' (before_cons_iff.mp hlt)
      · exact absurd hlt (hmore.before hbefore inner).2
    · refine ⟨address, node, hnode.tail, hfault, ?_⟩
      intro other node' hother hlt
      rcases NodeAmong.cons_iff.mp hother with ⟨inner', rfl, hinner'⟩ | hmore
      · rw [length_step inner']
        exact hsound inner' node' hinner'
      · exact hfirst other node' hmore hlt

theorem sound_node :
    R.Sound (R.Node value) depth ↔
      (∀ e, ¬ R.Faulty depth value e) ∧ R.Sound (R.NodeAmong (R.below value)) depth := by
  constructor
  · intro h
    constructor
    · have hroot := h [] value (.root value)
      rwa [List.length_nil, Nat.zero_add] at hroot
    · exact fun address node hnode => h address node (Node.cases_iff.mpr (Or.inr hnode))
  · rintro ⟨hroot, hbelow⟩ address node hnode
    rcases Node.cases_iff.mp hnode with ⟨rfl, rfl⟩ | hmore
    · rwa [List.length_nil, Nat.zero_add]
    · exact hbelow address node hmore

/-- The first fault of a value is that of its root, or the root has none and it is the first one
below. -/
theorem first_node {e : EvalError} :
    R.First (R.Node value) depth e ↔
      R.Faulty depth value e ∨
        (∀ e', ¬ R.Faulty depth value e') ∧ R.First (R.NodeAmong (R.below value)) depth e := by
  have hroot (e' : EvalError) : R.Faulty (([] : Address).length + depth) value e' ↔
      R.Faulty depth value e' := by
    rw [List.length_nil, Nat.zero_add]
  constructor
  · rintro ⟨address, node, hnode, hfault, hfirst⟩
    rcases Node.cases_iff.mp hnode with ⟨rfl, rfl⟩ | hmore
    · exact Or.inl ((hroot e).mp hfault)
    · right
      constructor
      · intro e' hother
        have hbefore : Address.Before [] address := by
          cases hmore with
          | step _ _ => exact .nil
        exact hfirst [] value (.root value) hbefore e' ((hroot e').mpr hother)
      · refine ⟨address, node, hmore, hfault, ?_⟩
        exact fun other node' hother => hfirst other node' (Node.cases_iff.mpr (Or.inr hother))
  · rintro (hfault | ⟨hnone, address, node, hnode, hfault, hfirst⟩)
    · refine ⟨[], value, .root value, (hroot e).mpr hfault, ?_⟩
      intro other node' _ hlt
      cases hlt
    · refine ⟨address, node, Node.cases_iff.mpr (Or.inr hnode), hfault, ?_⟩
      intro other node' hother hlt
      rcases Node.cases_iff.mp hother with ⟨rfl, rfl⟩ | hmore
      · exact fun e' hother => hnone e' ((hroot e').mp hother)
      · exact hfirst other node' hmore hlt

end Side

/-!
# Readers
-/

variable (R) in
/-- A result of reading nodes: it is a success if none has a fault, and else it is the first
fault. -/
structure Reads {α : Type} (nodes : Address -> Json -> Prop) (depth : Nat)
    (run : Except EvalError α) : Prop where
  ok : (∃ a, run = .ok a) ↔ R.Sound nodes depth
  error : ∀ e, run = .error e ↔ R.First nodes depth e

section Readers

variable {α β : Type} {nodes : Address -> Json -> Prop} {depth : Nat} {run : Except EvalError α}

theorem Reads.map (h : R.Reads nodes depth run) (f : α -> β) : R.Reads nodes depth (run.map f) := by
  cases run with
  | ok a =>
      constructor
      · exact iff_of_true ⟨f a, rfl⟩ (h.ok.mp ⟨a, rfl⟩)
      · intro e
        rw [← h.error e]
        exact iff_of_false nofun nofun
  | error e =>
      constructor
      · rw [← h.ok]
        exact iff_of_false (fun ⟨_, hb⟩ => nomatch hb) fun ⟨_, ha⟩ => nomatch ha
      · intro e'
        rw [← h.error e']
        constructor
        all_goals
          intro heq
          cases heq
          rfl

theorem Reads.sound_iff (h : R.Reads nodes depth run) :
    R.Sound nodes depth ↔ ∀ e, ¬ R.First nodes depth e := by
  rw [← h.ok]
  constructor
  · rintro ⟨a, ha⟩ e hfirst
    cases ha.symm.trans ((h.error e).mpr hfirst)
  · intro hnone
    cases hrun : run with
    | ok a => exact ⟨a, rfl⟩
    | error e => exact absurd ((h.error e).mp hrun) (hnone e)

theorem reads_nil (a : α) : R.Reads (R.NodeAmong []) depth (.ok a) := by
  constructor
  · refine iff_of_true ⟨a, rfl⟩ ?_
    rintro address node ⟨hstep, _⟩
    cases hstep
  · intro e
    refine iff_of_false nofun ?_
    rintro ⟨_, _, ⟨hstep, _⟩, _⟩
    cases hstep

theorem reads_cons {step : Step} {child : Json} {rest : List (Step × Json)}
    (hbefore : ∀ entry ∈ rest, step.Before entry.1)
    (hchild : R.Reads (R.Node child) (depth + 1) run) {next : α -> Except EvalError β}
    (hrest : ∀ a, R.Reads (R.NodeAmong rest) depth (next a)) :
    R.Reads (R.NodeAmong ((step, child) :: rest)) depth (run >>= next) := by
  cases run with
  | error e =>
      have hunsound : ¬ R.Sound (R.Node child) (depth + 1) := by
        intro hsound
        rcases hchild.ok.mpr hsound with ⟨_, ha⟩
        cases ha
      constructor
      · rw [sound_cons]
        exact iff_of_false (fun ⟨_, hb⟩ => nomatch hb) fun h => hunsound h.1
      · intro e'
        rw [first_cons hbefore, ← hchild.error e']
        constructor
        · intro heq
          cases heq
          exact Or.inl rfl
        · rintro (heq | ⟨hsound, _⟩)
          · cases heq
            rfl
          · exact absurd hsound hunsound
  | ok a =>
      have hsound : R.Sound (R.Node child) (depth + 1) := hchild.ok.mp ⟨a, rfl⟩
      constructor
      · rw [sound_cons, and_iff_right hsound]
        exact (hrest a).ok
      · intro e'
        rw [first_cons hbefore, ← hchild.error e', and_iff_right hsound,
          or_iff_right nofun]
        exact (hrest a).error e'

/-- Values that are read one after the other. -/
theorem reads_mapM {γ : Type} {members : List γ} {place : γ -> Step × Json}
    (hordered : (members.map place).Pairwise fun a b => a.1.Before b.1)
    {read : γ -> Except EvalError α}
    (h : ∀ member ∈ members, R.Reads (R.Node (place member).2) (depth + 1) (read member)) :
    R.Reads (R.NodeAmong (members.map place)) depth (members.mapM read) := by
  induction members with
  | nil => exact reads_nil []
  | cons member rest ih =>
      rcases List.pairwise_cons.mp hordered with ⟨hbefore, hlater⟩
      rw [List.mapM_cons]
      apply reads_cons hbefore (h member List.mem_cons_self)
      intro a
      have hrest := ih hlater fun other hother => h other (List.mem_cons_of_mem member hother)
      exact hrest.map (a :: ·)

theorem reads_items {items : List Json} {read : Json -> Except EvalError α}
    (h : ∀ entry ∈ itemSteps items, R.Reads (R.Node entry.2) (depth + 1) (read entry.2)) :
    R.Reads (R.NodeAmong (itemSteps items)) depth (items.mapM read) := by
  have hread : items.mapM read = items.zipIdx.mapM fun entry => read entry.1 := by
    conv_lhs => rw [← List.zipIdx_map_fst 0 items, List.mapM_map]
    rfl
  rw [hread]
  exact reads_mapM (pairwise_itemSteps items) fun _ hentry => h _ (List.mem_map_of_mem hentry)

/-- A root with a fault is not read any further. -/
theorem reads_of_fault {value : Json} {e : EvalError} (hfault : R.Faulty depth value e)
    (hunique : ∀ e', R.Faulty depth value e' -> e' = e) :
    R.Reads (R.Node value) depth (.error e : Except EvalError α) := by
  constructor
  · rw [sound_node]
    exact iff_of_false (fun ⟨_, ha⟩ => nomatch ha) fun h => h.1 e hfault
  · intro e'
    rw [first_node]
    constructor
    · intro heq
      cases heq
      exact Or.inl hfault
    · rintro (hother | ⟨hnone, _⟩)
      · rw [hunique e' hother]
      · exact absurd hfault (hnone e)

/-- After a root without a fault comes what is below it. -/
theorem reads_of_below {value : Json} (hroot : ∀ e, ¬ R.Faulty depth value e)
    (hbelow : R.Reads (R.NodeAmong (R.below value)) depth run) :
    R.Reads (R.Node value) depth run := by
  constructor
  · rw [sound_node, and_iff_right hroot]
    exact hbelow.ok
  · intro e
    rw [first_node, and_iff_right hroot, or_iff_right (hroot e)]
    exact hbelow.error e

end Readers

end Reading
end Reckoner
