import Reckoner.Proofs.Expr.Arguments
import Reckoner.Proofs.Fact.Intersection

/-!
# Operators on collections

Three searches look for the members that two collections have in common.  One asks
whether there are any, one lists them, and one takes a single fact in the place of the
first collection.  They compare members in opposite orders, and they agree since loose
equality is symmetric and a fact that equals something equals itself.
-/

namespace Reckoner

namespace Fact

/-!
# Members in common
-/

theorem looseEq_self_of_among {xs : List Fact} {x : Fact} (h : among xs x = true) :
    x.looseEq x = true := by
  rcases among_iff.mp h with ⟨item, _, hequal⟩
  exact looseEq_trans (looseEq_symm hequal) hequal

theorem overlaps_iff {as bs : List Fact} :
    overlaps as bs = true ↔ ∃ a ∈ as, among bs a = true := by
  have hmember (a : Fact) : (bs.any fun b => a.looseEq b) = among bs a := by
    unfold among
    simp only [looseEq_comm a]
  unfold overlaps
  rw [List.any_eq_true]
  simp only [hmember]

theorem overlaps_comm (as bs : List Fact) : overlaps as bs = overlaps bs as := by
  rw [Bool.eq_iff_iff, overlaps_iff, overlaps_iff]
  simp only [among_iff]
  constructor
  · intro h
    rcases h with ⟨a, ha, b, hb, hequal⟩
    exact ⟨b, hb, a, ha, looseEq_symm hequal⟩
  · intro h
    rcases h with ⟨b, hb, a, ha, hequal⟩
    exact ⟨a, ha, b, hb, looseEq_symm hequal⟩

theorem overlaps_singleton (a : Fact) (bs : List Fact) : overlaps [a] bs = among bs a := by
  rw [Bool.eq_iff_iff, overlaps_iff]
  simp only [List.mem_singleton, exists_eq_left]

theorem overlaps_iff_intersect_ne_nil {as bs : List Fact} :
    overlaps as bs = true ↔ intersect as bs ≠ [] := by
  rw [overlaps_iff]
  constructor
  · intro hmembers hnone
    rcases hmembers with ⟨a, ha, hmember⟩
    have hself : among as a = true :=
      among_iff.mpr ⟨a, ha, looseEq_self_of_among hmember⟩
    have hkept := (among_intersect as bs a).mpr ⟨hself, hmember⟩
    rw [hnone] at hkept
    cases hkept
  · intro hsome
    rcases List.exists_mem_of_ne_nil _ hsome with ⟨x, hx⟩
    exact ⟨x, (intersect_sublist as bs).subset hx, among_of_mem_intersect hx⟩

end Fact

namespace Expr

/-!
# The operators agree
-/

theorem eval_overlap_intersect (facts : Json) (limit : Nat) (a b : Expr) :
    (∃ fault, (Expr.call .overlap [a, b]).eval limit facts = .error fault ∧
        (Expr.call .intersect [a, b]).eval limit facts = .error fault) ∨
      ∃ found common, (Expr.call .overlap [a, b]).eval limit facts = .ok (.bool found) ∧
        (Expr.call .intersect [a, b]).eval limit facts = .ok (.list common) ∧
        (found = true ↔ common ≠ []) := by
  unfold eval
  cases limit with
  | zero => exact .inl ⟨.tooDeep 0, evalAt_zero facts 0 _, evalAt_zero facts 0 _⟩
  | succ room =>
      rw [evalAt_pair rfl, evalAt_pair rfl]
      cases evalAt facts (room + 1) room a with
      | error fault => exact .inl ⟨fault, rfl, rfl⟩
      | ok x =>
          cases evalAt facts (room + 1) room b with
          | error fault => exact .inl ⟨fault, rfl, rfl⟩
          | ok y => exact .inr ⟨_, _, rfl, rfl, Fact.overlaps_iff_intersect_ne_nil⟩

theorem eval_overlap_comm (facts : Json) (limit : Nat) (a b : Expr) :
    (Expr.call .overlap [a, b]).eval limit facts =
      (Expr.call .overlap [b, a]).eval limit facts := by
  unfold eval
  cases limit with
  | zero => rw [evalAt_zero, evalAt_zero]
  | succ room =>
      rw [evalAt_pair rfl, evalAt_pair rfl]
      cases hx : evalAt facts (room + 1) room a with
      | error fault =>
          cases hy : evalAt facts (room + 1) room b with
          | error other => rw [eq_tooDeep_of_evalAt hx, eq_tooDeep_of_evalAt hy]
          | ok y => rfl
      | ok x =>
          cases evalAt facts (room + 1) room b with
          | error fault => rfl
          | ok y =>
              have hsame : Fact.overlaps x.items y.items = Fact.overlaps y.items x.items :=
                Fact.overlaps_comm x.items y.items
              exact congrArg (fun found => Except.ok (Fact.bool found)) hsame

/-- Searching a list for a fact, and for the single member of another list. -/
theorem found_of_hasValues {facts : Json} {a b : Expr} {items : List Fact} {x y z : Fact}
    (hb : HasValue facts b (.list items)) (hx : HasValue facts (.call .isIn [a, b]) x)
    (hy : HasValue facts (.call .overlap [.list [a], b]) y)
    (hz : HasValue facts (.call .intersect [.list [a], b]) z) :
    ∃ found common, x = .bool found ∧ y = .bool found ∧ z = .list common ∧
      (found = true ↔ common ≠ []) := by
  rcases exists_of_hasValue_pair rfl hx with ⟨needle, _, hneedle, hitems, rfl⟩
  cases hb.unique hitems
  have hpair {op : Op} (hreads : op.reads = .first 2) {value : Fact}
      (hvalue : HasValue facts (.call op [.list [a], b]) value) :
      value = op.apply (Op.ne_lazy_of_first hreads) [.list [needle], .list items] := by
    rcases exists_of_hasValue_pair hreads hvalue with ⟨_, _, hfirst, hsecond, rfl⟩
    rcases exists_of_hasValue_list hfirst with ⟨members, rfl, hmembers⟩
    rw [hsecond.unique hb, hasValues_unique hmembers (.cons hneedle .nil)]
  refine ⟨Fact.among items needle, Fact.intersect [needle] items, rfl, ?_, hpair rfl hz, ?_⟩
  · rw [hpair rfl hy, ← Fact.overlaps_singleton]
    rfl
  · rw [← Fact.overlaps_singleton]
    exact Fact.overlaps_iff_intersect_ne_nil

/-- Two collections overlap if and only if they have a member in common, in whichever order they
are given, and a fact is in a list if and only if the list of that one fact overlaps with it. -/
theorem eval_collections_agree (facts : Json) (a b : Expr) :
    (∀ limit,
      (∃ fault, (Expr.call .overlap [a, b]).eval limit facts = .error fault ∧
        (Expr.call .intersect [a, b]).eval limit facts = .error fault) ∨
      ∃ found common, (Expr.call .overlap [a, b]).eval limit facts = .ok (.bool found) ∧
        (Expr.call .intersect [a, b]).eval limit facts = .ok (.list common) ∧
        (found = true ↔ common ≠ [])) ∧
      (∀ limit, (Expr.call .overlap [a, b]).eval limit facts =
        (Expr.call .overlap [b, a]).eval limit facts) ∧
      ∀ items x y z, HasValue facts b (.list items) ->
        HasValue facts (.call .isIn [a, b]) x ->
        HasValue facts (.call .overlap [.list [a], b]) y ->
        HasValue facts (.call .intersect [.list [a], b]) z ->
        ∃ found common, x = .bool found ∧ y = .bool found ∧ z = .list common ∧
          (found = true ↔ common ≠ []) := by
  refine ⟨?_, ?_, ?_⟩
  · intro limit
    exact eval_overlap_intersect facts limit a b
  · intro limit
    exact eval_overlap_comm facts limit a b
  · intro items x y z hb hx hy hz
    exact found_of_hasValues hb hx hy hz

/-- What is absent is found where a list has null, and a number that is none is not found even in
a list of itself. -/
theorem eval_collections_agree_kinds :
    let facts : Json := .obj [("xs", .arr [.str "x", .null])]
    let gone : Expr := .var "gone"
    let xs : Expr := .var "xs"
    let nan : Expr := .call .div [.number 0.0, .number 0.0]
    let nans : Expr := .list [nan]
    HasValue facts xs (.list [.str "x", .null]) ∧
      (Expr.call .isIn [gone, xs]).eval 3 facts = .ok (.bool true) ∧
      (Expr.call .overlap [.list [gone], xs]).eval 3 facts = .ok (.bool true) ∧
      (∃ common, (Expr.call .intersect [.list [gone], xs]).eval 3 facts = .ok (.list common) ∧
        common ≠ []) ∧
      (Expr.call .isIn [nan, nans]).eval 4 facts = .ok (.bool false) ∧
      (Expr.call .overlap [nans, nans]).eval 4 facts = .ok (.bool false) ∧
      (Expr.call .intersect [nans, nans]).eval 4 facts = .ok (.list []) := by
  intro facts gone xs nan nans
  have hxs : HasValue facts xs (.list [.str "x", .null]) := ⟨1, rfl⟩
  have hin : (Expr.call .isIn [gone, xs]).eval 3 facts = .ok (.bool true) := rfl
  have hoverlap : (Expr.call .overlap [.list [gone], xs]).eval 3 facts = .ok (.bool true) := rfl
  have hcommon : (Expr.call .intersect [.list [gone], xs]).eval 3 facts =
      .ok (.list [.absent]) := rfl
  have hsome : ∃ common,
      (Expr.call .intersect [.list [gone], xs]).eval 3 facts = .ok (.list common) ∧
        common ≠ [] := by
    rcases (eval_collections_agree facts gone xs).2.2 _ _ _ _ hxs ⟨3, hin⟩ ⟨3, hoverlap⟩
        ⟨3, hcommon⟩ with
      ⟨found, common, hfound, _, hlist, hiff⟩
    rw [hlist] at hcommon
    exact ⟨common, hcommon, hiff.mp (Fact.bool.inj hfound).symm⟩
  refine ⟨hxs, hin, hoverlap, hsome, ?_, ?_, ?_⟩
  · rfl
  · rfl
  · rfl

end Expr
end Reckoner
