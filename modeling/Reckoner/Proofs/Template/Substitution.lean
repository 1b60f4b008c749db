import Reckoner.Proofs.Template.Coding
import Reckoner.Template.Render

/-!
# Rendering as substitution

A template that has been read is rendered by putting values in the places of its
expressions.  The data around them stays as it is written, and its numbers are not
even made plainer.  There is a result if the data is nested no deeper than allowed and
all expressions have values, and only then.
-/

namespace Reckoner

/-!
# Computations that succeed in one way
-/

/-- A computation that succeeds if and only if a condition holds, and with no other result than
a given one. -/
structure SucceedsIff {α : Type} (P : Prop) (result : α) (run : Except EvalError α) : Prop where
  ok : P -> run = .ok result
  error : ¬ P -> ∃ e, run = .error e

namespace SucceedsIff

variable {α β : Type} {P Q : Prop} {a : α} {b : β} {run : Except EvalError α}

theorem congr (h : SucceedsIff P a run) (hiff : Q ↔ P) : SucceedsIff Q a run where
  ok := fun hq => h.ok (hiff.mp hq)
  error := fun hq => h.error fun hp => hq (hiff.mpr hp)

theorem map (h : SucceedsIff P a run) (f : α -> β) : SucceedsIff P (f a) (run.map f) := by
  constructor
  · intro hp
    rw [h.ok hp]
    rfl
  · intro hp
    rcases h.error hp with ⟨e, he⟩
    rw [he]
    exact ⟨e, rfl⟩

theorem bind (h : SucceedsIff P a run) {next : α -> Except EvalError β}
    (hnext : SucceedsIff Q b (next a)) : SucceedsIff (P ∧ Q) b (run >>= next) := by
  constructor
  · rintro ⟨hp, hq⟩
    rw [h.ok hp]
    exact hnext.ok hq
  · intro hpq
    by_cases hp : P
    · rw [h.ok hp]
      exact hnext.error fun hq => hpq ⟨hp, hq⟩
    · rcases h.error hp with ⟨e, he⟩
      rw [he]
      exact ⟨e, rfl⟩

theorem eq_of_ok (h : SucceedsIff P a run) {x : α} (hx : run = .ok x) : P ∧ x = a := by
  have hp : P := by
    by_contra hp
    rcases h.error hp with ⟨e, he⟩
    rw [hx] at he
    cases he
  rw [h.ok hp] at hx
  exact ⟨hp, (Except.ok.inj hx).symm⟩

theorem exists_ok_iff (h : SucceedsIff P a run) : (∃ x, run = .ok x) ↔ P :=
  ⟨fun ⟨_, hx⟩ => (h.eq_of_ok hx).1, fun hp => ⟨a, h.ok hp⟩⟩

end SucceedsIff

namespace Expr

def valueOf (limits : Limits) (facts : Json) (entries : List (String × Json)) :
    Except EvalError Fact :=
  (ofJson (.obj entries)).bind (eval limits.expr facts)

end Expr

namespace Template

/-!
# Data and the expressions in it
-/

mutual

/-- The outermost objects in a value that are marked as expressions, from left to right. -/
def outermost : Json -> List (List (String × Json))
  | .arr items => outermostOfItems items
  | .obj entries => if Expr.isMarked entries then [entries] else outermostOfEntries entries
  | .null | .bool _ | .num _ | .str _ => []

def outermostOfItems : List Json -> List (List (String × Json))
  | [] => []
  | item :: rest => outermost item ++ outermostOfItems rest

def outermostOfEntries : List (String × Json) -> List (List (String × Json))
  | [] => []
  | (_, value) :: rest => outermost value ++ outermostOfEntries rest

end

mutual

/-- The number of levels to which data is nested. A value that holds no others has one level, and
so has an expression, whatever it holds. -/
def levels : Json -> Nat
  | .arr items => levelsOfItems items + 1
  | .obj entries => (if Expr.isMarked entries then 0 else levelsOfEntries entries) + 1
  | .null | .bool _ | .num _ | .str _ => 1

def levelsOfItems : List Json -> Nat
  | [] => 0
  | item :: rest => max (levels item) (levelsOfItems rest)

def levelsOfEntries : List (String × Json) -> Nat
  | [] => 0
  | (_, value) :: rest => max (levels value) (levelsOfEntries rest)

end

mutual

def substitute (f : List (String × Json) -> Json) : Json -> Json
  | .arr items => .arr (substituteItems f items)
  | .obj entries =>
      if Expr.isMarked entries then f entries else .obj (substituteEntries f entries)
  | .null => .null
  | .bool value => .bool value
  | .num value => .num value
  | .str value => .str value

def substituteItems (f : List (String × Json) -> Json) : List Json -> List Json
  | [] => []
  | item :: rest => substitute f item :: substituteItems f rest

def substituteEntries (f : List (String × Json) -> Json) :
    List (String × Json) -> List (String × Json)
  | [] => []
  | (name, value) :: rest => (name, substitute f value) :: substituteEntries f rest

end

section Marked

variable {entries : List (String × Json)}

theorem outermost_marked (h : Expr.isMarked entries = true) :
    outermost (.obj entries) = [entries] :=
  if_pos h

theorem outermost_unmarked (h : Expr.isMarked entries = false) :
    outermost (.obj entries) = outermostOfEntries entries := by
  unfold outermost
  rw [h]
  rfl

theorem levels_marked (h : Expr.isMarked entries = true) : levels (.obj entries) = 1 := by
  unfold levels
  rw [h]
  rfl

theorem levels_unmarked (h : Expr.isMarked entries = false) :
    levels (.obj entries) = levelsOfEntries entries + 1 := by
  unfold levels
  rw [h]
  rfl

theorem substitute_marked (f : List (String × Json) -> Json)
    (h : Expr.isMarked entries = true) : substitute f (.obj entries) = f entries :=
  if_pos h

theorem substitute_unmarked (f : List (String × Json) -> Json)
    (h : Expr.isMarked entries = false) :
    substitute f (.obj entries) = .obj (substituteEntries f entries) := by
  unfold substitute
  rw [h]
  rfl

end Marked

mutual

/-- In data without expressions nothing is replaced. -/
theorem substitute_of_outermost (f : List (String × Json) -> Json) :
    ∀ value : Json, outermost value = [] -> substitute f value = value
  | .null, _ | .bool _, _ | .num _, _ | .str _, _ => rfl
  | .arr items, h => congrArg Json.arr (substituteItems_of_outermost f items h)
  | .obj entries, h => by
      cases hmarked : Expr.isMarked entries with
      | true =>
          rw [outermost_marked hmarked] at h
          cases h
      | false =>
          rw [outermost_unmarked hmarked] at h
          rw [substitute_unmarked f hmarked, substituteEntries_of_outermost f entries h]

theorem substituteItems_of_outermost (f : List (String × Json) -> Json) :
    ∀ items : List Json, outermostOfItems items = [] -> substituteItems f items = items
  | [], _ => rfl
  | item :: rest, h => by
      rcases List.append_eq_nil_iff.mp h with ⟨hitem, hrest⟩
      show substitute f item :: substituteItems f rest = item :: rest
      rw [substitute_of_outermost f item hitem, substituteItems_of_outermost f rest hrest]

theorem substituteEntries_of_outermost (f : List (String × Json) -> Json) :
    ∀ entries : List (String × Json), outermostOfEntries entries = [] ->
      substituteEntries f entries = entries
  | [], _ => rfl
  | (name, value) :: rest, h => by
      rcases List.append_eq_nil_iff.mp h with ⟨hvalue, hrest⟩
      show (name, substitute f value) :: substituteEntries f rest = (name, value) :: rest
      rw [substitute_of_outermost f value hvalue, substituteEntries_of_outermost f rest hrest]

end

/-!
# Rendering
-/

section Rendering

variable (limits : Limits) (facts : Json)

def shown (entries : List (String × Json)) : Json :=
  match Expr.valueOf limits facts entries with
  | .ok x => x.toJson
  | .error _ => .null

/-- Room for the levels of data, and a value for every expression in it. -/
def Feasible (room needed : Nat) (objects : List (List (String × Json))) : Prop :=
  needed ≤ room ∧ ∀ entries ∈ objects, ∃ x, Expr.valueOf limits facts entries = .ok x

variable {limits facts} in
theorem feasible_append_iff {room m n : Nat} {objects more : List (List (String × Json))} :
    Feasible limits facts room (max m n) (objects ++ more) ↔
      Feasible limits facts room m objects ∧ Feasible limits facts room n more := by
  unfold Feasible
  rw [Nat.max_le, List.forall_mem_append]
  exact and_and_and_comm

theorem succeedsIff_expr {entries : List (String × Json)} {e : Expr}
    (he : Expr.ofJson (.obj entries) = .ok e) (room : Nat) :
    SucceedsIff (Feasible limits facts room 0 [entries]) (shown limits facts entries)
      ((e.eval limits.expr facts).map Fact.toJson) := by
  have hvalue : Expr.valueOf limits facts entries = e.eval limits.expr facts := by
    unfold Expr.valueOf
    rw [he]
    rfl
  unfold Feasible shown
  rw [List.forall_mem_singleton, hvalue]
  cases e.eval limits.expr facts with
  | ok x =>
      constructor
      · exact fun _ => rfl
      · exact fun h => absurd ⟨Nat.zero_le room, x, rfl⟩ h
  | error cause =>
      constructor
      · rintro ⟨_, x, hx⟩
        cases hx
      · exact fun _ => ⟨cause, rfl⟩

theorem succeedsIff_nil {α : Type} (result : α) (room : Nat) :
    SucceedsIff (Feasible limits facts room 0 []) result (.ok result) where
  ok := fun _ => rfl
  error := fun h => absurd ⟨Nat.zero_le room, List.forall_mem_nil _⟩ h

/-- A node takes one level, and what is below it has those that are left. -/
theorem succeedsIff_renderAt_of_below {t : Template} {n : Nat}
    {objects : List (List (String × Json))} {result : Json} {below : Nat -> Except EvalError Json}
    (h : ∀ room, SucceedsIff (Feasible limits facts room n objects) result (below room))
    (hbelow : ∀ room, renderAt limits facts (room + 1) t = below room) (room : Nat) :
    SucceedsIff (Feasible limits facts room (n + 1) objects) result
      (renderAt limits facts room t) := by
  cases room with
  | zero =>
      constructor
      · exact fun hfeasible => absurd hfeasible.1 (Nat.not_succ_le_zero n)
      · exact fun _ => ⟨_, renderAt_zero limits facts t⟩
  | succ room =>
      rw [hbelow room]
      apply (h room).congr
      unfold Feasible
      rw [Nat.add_le_add_iff_right]

theorem succeedsIff_renderAt_scalar {value : Json} (hscalar : value.isScalar = true)
    {depth : Nat} {t : Template} (h : parseAt depth value = .ok t) (room : Nat) :
    SucceedsIff (Feasible limits facts room 1 []) value (renderAt limits facts room t) := by
  rw [parseAt_scalar (le_of_parseAt h) hscalar] at h
  cases h
  exact succeedsIff_renderAt_of_below limits facts (succeedsIff_nil limits facts value)
    (fun room => renderAt_literal limits facts room value) room

mutual

theorem succeedsIff_renderAt : ∀ (value : Json) {depth : Nat} {t : Template},
    parseAt depth value = .ok t -> ∀ room,
      SucceedsIff (Feasible limits facts room (levels value) (outermost value))
        (substitute (shown limits facts) value) (renderAt limits facts room t)
  | .null, _, _, h => succeedsIff_renderAt_scalar limits facts rfl h
  | .bool _, _, _, h => succeedsIff_renderAt_scalar limits facts rfl h
  | .num _, _, _, h => succeedsIff_renderAt_scalar limits facts rfl h
  | .str _, _, _, h => succeedsIff_renderAt_scalar limits facts rfl h
  | .arr items, depth, t, h => by
      rw [parseAt_arr (le_of_parseAt h)] at h
      rcases exists_of_map_eq_ok h with ⟨ts, hitems, rfl⟩
      have hbelow (room : Nat) := (succeedsIff_renderItems items hitems room).map Json.arr
      exact succeedsIff_renderAt_of_below limits facts hbelow fun room =>
        renderAt_list limits facts room ts
  | .obj entries, depth, t, h => by
      have hdepth := le_of_parseAt h
      cases hmarked : Expr.isMarked entries with
      | true =>
          rw [parseAt_marked hdepth hmarked] at h
          rcases exists_of_map_eq_ok h with ⟨e, he, rfl⟩
          rw [levels_marked hmarked, outermost_marked hmarked, substitute_marked _ hmarked]
          exact succeedsIff_renderAt_of_below limits facts (succeedsIff_expr limits facts he)
            fun room => renderAt_expr limits facts room e
      | false =>
          rw [parseAt_unmarked hdepth hmarked] at h
          rcases exists_of_map_eq_ok h with ⟨ts, hentries, rfl⟩
          rw [levels_unmarked hmarked, outermost_unmarked hmarked, substitute_unmarked _ hmarked]
          have hbelow (room : Nat) :=
            (succeedsIff_renderEntries entries hentries room).map Json.obj
          exact succeedsIff_renderAt_of_below limits facts hbelow fun room =>
            renderAt_map limits facts room ts

theorem succeedsIff_renderItems : ∀ (items : List Json) {depth : Nat} {ts : List Template},
    parseItems depth items = .ok ts -> ∀ room,
      SucceedsIff (Feasible limits facts room (levelsOfItems items) (outermostOfItems items))
        (substituteItems (shown limits facts) items) (renderItems limits facts room ts)
  | [], _, _, h, room => by
      cases h
      exact succeedsIff_nil limits facts [] room
  | item :: rest, depth, ts, h, room => by
      rw [parseItems_cons] at h
      rcases exists_of_bind_eq_ok h with ⟨t, hitem, h⟩
      rcases exists_of_bind_eq_ok h with ⟨others, hrest, h⟩
      cases h
      unfold renderItems
      have hhead := succeedsIff_renderAt item hitem room
      have htail := succeedsIff_renderItems rest hrest room
      exact (hhead.bind (htail.map (_ :: ·))).congr feasible_append_iff

theorem succeedsIff_renderEntries : ∀ (entries : List (String × Json)) {depth : Nat}
    {ts : List (String × Template)}, parseEntries depth entries = .ok ts -> ∀ room,
      SucceedsIff
        (Feasible limits facts room (levelsOfEntries entries) (outermostOfEntries entries))
        (substituteEntries (shown limits facts) entries) (renderEntries limits facts room ts)
  | [], _, _, h, room => by
      cases h
      exact succeedsIff_nil limits facts [] room
  | (name, value) :: rest, depth, ts, h, room => by
      rw [parseEntries_cons] at h
      rcases exists_of_bind_eq_ok h with ⟨t, hvalue, h⟩
      rcases exists_of_bind_eq_ok h with ⟨others, hrest, h⟩
      cases h
      unfold renderEntries
      have hhead := succeedsIff_renderAt value hvalue room
      have htail := succeedsIff_renderEntries rest hrest room
      exact (hhead.bind (htail.map ((name, _) :: ·))).congr feasible_append_iff

end

end Rendering

/-- A template that has been read is rendered if and only if its data is nested no deeper than the
limit allows and all expressions in it have values. The result is the data with these values
in the places of the expressions, so data without expressions is its own result. -/
theorem render_ofJson {value : Json} {t : Template} (hread : ofJson value = .ok t)
    (limits : Limits) (facts : Json) :
    ((∃ rendered, t.render limits facts = .ok rendered) ↔
      levels value ≤ limits.template ∧
        ∀ entries ∈ outermost value, ∃ x, Expr.valueOf limits facts entries = .ok x) ∧
    (∀ rendered, t.render limits facts = .ok rendered ->
      rendered = substitute (shown limits facts) value) ∧
    (outermost value = [] -> levels value ≤ limits.template ->
      t.render limits facts = .ok value) := by
  have hrender := succeedsIff_renderAt limits facts value hread limits.template
  refine ⟨hrender.exists_ok_iff, fun rendered hrun => (hrender.eq_of_ok hrun).2, ?_⟩
  intro hplain hlevels
  have hfeasible : Feasible limits facts limits.template (levels value) (outermost value) := by
    rw [hplain]
    exact ⟨hlevels, List.forall_mem_nil _⟩
  have hrun : t.render limits facts = .ok (substitute (shown limits facts) value) :=
    hrender.ok hfeasible
  rw [hrun, substitute_of_outermost _ value hplain]

/-- A double stays one where it is data, a sum is shown as an integer, and what a path leads to may
be nested deeper than the limit. -/
theorem render_ofJson_numbers :
    let one : Json := .num (.double 1)
    let sum : Json := .obj [("args", .arr [one, .num (.int 2)]), ("op", .str "add")]
    let value : Json :=
      .obj [("data", .arr [one, sum]), ("empty", .obj []), ("path", .obj [("var", .str "x")])]
    let facts : Json := .obj [("x", .arr [.arr [.arr [one]]])]
    let rendered : Json :=
      .obj [
        ("data", .arr [one, .num (.int 3)]),
        ("empty", .obj []),
        ("path", .arr [.arr [.arr [.num (.int 1)]]])]
    ∃ t, ofJson value = .ok t ∧
      t.render ⟨2, 3⟩ facts = .ok rendered ∧
      rendered = substitute (shown ⟨2, 3⟩ facts) value ∧
      ¬ (∃ other, t.render ⟨2, 2⟩ facts = .ok other) ∧
      ¬ (∃ other, t.render ⟨1, 3⟩ facts = .ok other) := by
  intro one sum value facts rendered
  have hread : ∃ t, ofJson value = .ok t ∧ t.render ⟨2, 3⟩ facts = .ok rendered :=
    ⟨_, rfl, rfl⟩
  rcases hread with ⟨t, hread, hrun⟩
  have hsum : Expr.valueOf ⟨1, 3⟩ facts [("args", .arr [one, .num (.int 2)]), ("op", .str "add")] =
      .error (.tooDeep 1) := rfl
  refine ⟨t, hread, hrun, (render_ofJson hread ⟨2, 3⟩ facts).2.1 rendered hrun, ?_, ?_⟩
  · rw [(render_ofJson hread ⟨2, 2⟩ facts).1]
    intro hfeasible
    exact absurd hfeasible.1 (by decide)
  · rw [(render_ofJson hread ⟨1, 3⟩ facts).1]
    intro hfeasible
    rcases hfeasible.2 _ List.mem_cons_self with ⟨x, hx⟩
    rw [hsum] at hx
    cases hx

end Template
end Reckoner
