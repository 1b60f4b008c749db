import Reckoner.Fact.Collection
import Reckoner.Proofs.Fact.Equality

/-!
# Common members

A member of the first list is kept if it equals one of the second and nothing that is
kept already.  So of the members that equal one another the first is kept, and the
members that are kept stand for exactly those that both lists have.  Each fact here is
proved by adding one more member at the end of the first list.
-/

namespace Reckoner

namespace Fact

/-!
# Members that equal a fact
-/

theorem among_iff {xs : List Fact} {x : Fact} :
    among xs x = true ↔ ∃ item ∈ xs, item.looseEq x = true :=
  List.any_eq_true

theorem among_eq_false_iff {xs : List Fact} {x : Fact} :
    among xs x = false ↔ ∀ item ∈ xs, item.looseEq x = false := by
  unfold among
  rw [List.any_eq_false]
  simp only [Bool.not_eq_true]

theorem among_of_looseEq {xs : List Fact} {x y : Fact} (hx : among xs x = true)
    (hxy : x.looseEq y = true) : among xs y = true := by
  rcases among_iff.mp hx with ⟨item, hitem, hequal⟩
  exact among_iff.mpr ⟨item, hitem, looseEq_trans hequal hxy⟩

/-!
# What is kept
-/

/-- The two ways to add a member: it is kept at the end, or it is left out because it is not in
the second list or an equal one is kept already. -/
theorem intersect_concat_cases (as bs : List Fact) (a : Fact) :
    (among bs a = true ∧ among (intersect as bs) a = false ∧
        intersect (as ++ [a]) bs = intersect as bs ++ [a]) ∨
      ((among bs a = true -> among (intersect as bs) a = true) ∧
        intersect (as ++ [a]) bs = intersect as bs) := by
  rw [intersect_concat]
  cases hboth : among bs a <;> cases hkept : among (intersect as bs) a <;> simp

theorem intersect_sublist (as bs : List Fact) : (intersect as bs).Sublist as := by
  induction as using List.reverseRecOn with
  | nil => exact .refl []
  | append_singleton as a ih =>
      rcases intersect_concat_cases as bs a with ⟨_, _, hkeep⟩ | ⟨_, hleave⟩
      · rw [hkeep]
        exact ih.append_right [a]
      · rw [hleave]
        exact ih.trans (List.sublist_append_left as [a])

theorem pairwise_intersect (as bs : List Fact) :
    (intersect as bs).Pairwise fun x y => x.looseEq y = false := by
  induction as using List.reverseRecOn with
  | nil => exact .nil
  | append_singleton as a ih =>
      rcases intersect_concat_cases as bs a with ⟨_, hnew, hkeep⟩ | ⟨_, hleave⟩
      · rw [hkeep]
        refine List.pairwise_append.mpr ⟨ih, List.pairwise_singleton _ _, ?_⟩
        intro x hx y hy
        rw [List.mem_singleton.mp hy]
        exact among_eq_false_iff.mp hnew x hx
      · rw [hleave]
        exact ih

theorem among_of_mem_intersect {as bs : List Fact} {x : Fact} (hx : x ∈ intersect as bs) :
    among bs x = true := by
  induction as using List.reverseRecOn with
  | nil => cases hx
  | append_singleton as a ih =>
      rcases intersect_concat_cases as bs a with ⟨hboth, _, hkeep⟩ | ⟨_, hleave⟩
      · rw [hkeep] at hx
        rcases List.mem_append.mp hx with hbefore | hlast
        · exact ih hbefore
        · rw [List.mem_singleton.mp hlast]
          exact hboth
      · rw [hleave] at hx
        exact ih hx

theorem among_intersect (as bs : List Fact) (x : Fact) :
    among (intersect as bs) x = true ↔ among as x = true ∧ among bs x = true := by
  constructor
  · intro hx
    rcases among_iff.mp hx with ⟨item, hitem, hequal⟩
    constructor
    · exact among_iff.mpr ⟨item, (intersect_sublist as bs).subset hitem, hequal⟩
    · exact among_of_looseEq (among_of_mem_intersect hitem) hequal
  · rintro ⟨hfirst, hsecond⟩
    induction as using List.reverseRecOn with
    | nil => cases hfirst
    | append_singleton as a ih =>
        rw [among_append, among_singleton, Bool.or_eq_true] at hfirst
        rcases intersect_concat_cases as bs a with ⟨_, _, hkeep⟩ | ⟨hskip, hleave⟩
        · rw [hkeep, among_append, among_singleton, Bool.or_eq_true]
          exact hfirst.imp_left ih
        · rw [hleave]
          rcases hfirst with hbefore | hlast
          · exact ih hbefore
          · have hboth : among bs a = true := among_of_looseEq hsecond (looseEq_symm hlast)
            exact among_of_looseEq (hskip hboth) hlast

/-- A member that is kept comes before all others that equal it. -/
theorem first_of_mem_intersect {as bs : List Fact} {x : Fact} (hx : x ∈ intersect as bs) :
    ∃ before after, as = before ++ x :: after ∧ ∀ y ∈ before, y.looseEq x = false := by
  induction as using List.reverseRecOn with
  | nil => cases hx
  | append_singleton as a ih =>
      have hearlier (hbefore : x ∈ intersect as bs) : ∃ before after,
          as ++ [a] = before ++ x :: after ∧ ∀ y ∈ before, y.looseEq x = false := by
        rcases ih hbefore with ⟨before, after, hsplit, hfirst⟩
        refine ⟨before, after ++ [a], ?_, hfirst⟩
        rw [hsplit, List.append_assoc, List.cons_append]
      rcases intersect_concat_cases as bs a with ⟨hboth, hnew, hkeep⟩ | ⟨_, hleave⟩
      · rw [hkeep] at hx
        rcases List.mem_append.mp hx with hbefore | hlast
        · exact hearlier hbefore
        · rw [List.mem_singleton.mp hlast]
          refine ⟨as, [], rfl, ?_⟩
          apply among_eq_false_iff.mp
          -- an earlier member that equals the new one would have been kept, or one equal to it
          apply Bool.eq_false_of_not_eq_true
          intro hmember
          have hkept := (among_intersect as bs a).mpr ⟨hmember, hboth⟩
          rw [hnew] at hkept
          cases hkept
      · rw [hleave] at hx
        exact hearlier hx

theorem intersect_eq_self {as bs : List Fact} (hmembers : ∀ x ∈ as, among bs x = true)
    (hdistinct : as.Pairwise fun x y => x.looseEq y = false) : intersect as bs = as := by
  induction as using List.reverseRecOn with
  | nil => rfl
  | append_singleton as a ih =>
      rcases List.forall_mem_append.mp hmembers with ⟨hbefore, hlast⟩
      rcases List.pairwise_append.mp hdistinct with ⟨hpairs, _, hnew⟩
      have hsame := ih hbefore hpairs
      have hnone : among as a = false :=
        among_eq_false_iff.mpr fun x hx => hnew x hx a (List.mem_singleton_self a)
      rw [intersect_concat, hsame, hlast a (List.mem_singleton_self a), hnone]
      rfl

/-- What two lists have in common are members of the first in their order, each the first of those
that equal it, no two of them equal, and they are the same as the members that both lists have.
So taking the members in common with the second list again changes nothing. -/
theorem intersect_exact (as bs : List Fact) :
    (intersect as bs).Sublist as ∧
      ((intersect as bs).Pairwise fun x y => x.looseEq y = false) ∧
      (∀ x ∈ intersect as bs,
        ∃ before after, as = before ++ x :: after ∧ ∀ y ∈ before, y.looseEq x = false) ∧
      (∀ x, (Fact.list (intersect as bs)).holds x = true ↔
        (Fact.list as).holds x = true ∧ (Fact.list bs).holds x = true) ∧
      intersect (intersect as bs) bs = intersect as bs := by
  have hdistinct := pairwise_intersect as bs
  refine ⟨intersect_sublist as bs, hdistinct, ?_, among_intersect as bs, ?_⟩
  · intro x hx
    exact first_of_mem_intersect hx
  · exact intersect_eq_self (fun x hx => among_of_mem_intersect hx) hdistinct

/-- Nothing and null, the zeros of either sign and lists of these each count once, and a number
that is none is not in common even with itself. -/
theorem intersect_exact_kinds :
    let as : List Fact := [.num nan, .absent, .null, .num (-0.0), .list [.num 0.0, .null],
      .num 0.0, .list [.num (-0.0), .absent], .str "a"]
    let bs : List Fact := [.list [.num (-0.0), .absent], .num nan, .num 0.0, .null]
    let kept : List Fact := [.absent, .num (-0.0), .list [.num 0.0, .null]]
    intersect as bs = kept ∧ kept.Sublist as ∧
      (∃ before after, as = before ++ .num (-0.0) :: after ∧
        ∀ y ∈ before, y.looseEq (.num (-0.0)) = false) ∧
      (Fact.list kept).holds (.num 0.0) = true ∧ ¬ (Fact.list kept).holds (.num nan) = true ∧
      intersect kept bs = kept := by
  intro as bs kept
  have hkept : intersect as bs = kept := rfl
  rcases intersect_exact as bs with ⟨hsublist, _, hfirst, hholds, hagain⟩
  rw [hkept] at hsublist hfirst hholds hagain
  refine ⟨hkept, hsublist, ?_, ?_, ?_, hagain⟩
  · exact hfirst (.num (-0.0)) (List.mem_cons_of_mem _ List.mem_cons_self)
  · exact (hholds (.num 0.0)).mpr ⟨by decide +kernel, by decide +kernel⟩
  · intro hnan
    have hmember := ((hholds (.num nan)).mp hnan).1
    cases hmember

end Fact
end Reckoner
