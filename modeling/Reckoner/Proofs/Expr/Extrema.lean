import Reckoner.Expr.Operation
import Reckoner.Proofs.Decimal.Order
import Reckoner.Proofs.Fact.Numbers

/-!
# The least and the greatest of numbers

Both are found by a fold that starts from an infinity and keeps the better of two
numbers.  What is better is the order of the numbers, which for the greatest of them is
turned round.  The fold ends with the best of its start and all numbers, and since
nothing is worse than its start, that is the best of the numbers if there are any.
-/

namespace Reckoner

namespace Op

open Number

/-!
# The best of numbers
-/

/-- The number that is left when the better one of two is picked again and again, which is none if
there is no number or one of them is none. -/
def bestOf (pick : Float -> Float -> Float) (seed : Float) (xs : List Float) : Float :=
  if xs.isEmpty || xs.any Float.isNaN then
    Fact.nan
  else
    xs.foldl pick seed

structure IsBest {β : Type} [LinearOrder β] (key : Float -> β) (xs : List Float) (best : Float) :
    Prop where
  isNumber : best.isNaN = false
  attained : ∃ x ∈ xs, key x = key best
  extreme : ∀ x ∈ xs, key best ≤ key x

/-- A way to pick the earlier one of two numbers in an order of places, and a start that comes after
all numbers. -/
structure Ranks {β : Type} [LinearOrder β] (key : Float -> β) (pick : Float -> Float -> Float)
    (seed : Float) : Prop where
  picks : ∀ best x, best.isNaN = false -> x.isNaN = false ->
    pick best x = if key x < key best then x else best
  places : ∀ x y, key x = key y -> place x = place y
  seed_isNumber : seed.isNaN = false
  seed_last : ∀ x, key x ≤ key seed

section Best

variable {β : Type} [LinearOrder β] {key : Float -> β} {xs ys : List Float}

theorem IsBest.key_le {a b : Float} (ha : IsBest key xs a) (hb : IsBest key ys b)
    (hsub : ys ⊆ xs) : key a ≤ key b := by
  rcases hb.attained with ⟨y, hy, hsame⟩
  rw [← hsame]
  exact ha.extreme y (hsub hy)

theorem IsBest.key_eq {a b : Float} (ha : IsBest key xs a) (hb : IsBest key ys b)
    (hperm : xs.Perm ys) : key a = key b :=
  le_antisymm (ha.key_le hb hperm.symm.subset) (hb.key_le ha hperm.subset)

theorem bestOf_eq_nan {pick : Float -> Float -> Float} {seed : Float}
    (h : xs = [] ∨ ∃ x ∈ xs, x.isNaN = true) : bestOf pick seed xs = Fact.nan := by
  apply if_pos
  rw [Bool.or_eq_true, List.isEmpty_iff, List.any_eq_true]
  exact h

theorem bestOf_eq_foldl {pick : Float -> Float -> Float} {seed : Float} (hsome : xs ≠ [])
    (hxs : ∀ x ∈ xs, x.isNaN = false) : bestOf pick seed xs = xs.foldl pick seed := by
  apply if_neg
  rw [Bool.or_eq_true, List.isEmpty_iff, List.any_eq_true]
  intro h
  rcases h with hnone | ⟨x, hx, hnan⟩
  · exact hsome hnone
  · rw [hxs x hx] at hnan
    cases hnan

theorem broken_or_numbers (xs : List Float) :
    (xs = [] ∨ ∃ x ∈ xs, x.isNaN = true) ∨ xs ≠ [] ∧ ∀ x ∈ xs, x.isNaN = false := by
  by_cases hbroken : xs = [] ∨ ∃ x ∈ xs, x.isNaN = true
  · exact .inl hbroken
  · rcases not_or.mp hbroken with ⟨hsome, hnan⟩
    refine .inr ⟨hsome, ?_⟩
    intro x hx
    exact Bool.eq_false_of_not_eq_true fun h => hnan ⟨x, hx, h⟩

variable {pick : Float -> Float -> Float} {seed : Float}

/-- What is left after the start and some numbers is one of these and comes after none of them. -/
theorem Ranks.foldl_spec (hranks : Ranks key pick seed) {start : Float}
    (hstart : start.isNaN = false) (hxs : ∀ x ∈ xs, x.isNaN = false) :
    (xs.foldl pick start = start ∨ xs.foldl pick start ∈ xs) ∧
      key (xs.foldl pick start) ≤ key start ∧ ∀ x ∈ xs, key (xs.foldl pick start) ≤ key x := by
  induction xs generalizing start with
  | nil => exact ⟨.inl rfl, le_refl _, fun x hx => nomatch hx⟩
  | cons x rest ih =>
      rcases List.forall_mem_cons.mp hxs with ⟨hx, hrest⟩
      have hpicked := hranks.picks start x hstart hx
      rw [List.foldl_cons]
      by_cases hbetter : key x < key start
      · rw [if_pos hbetter] at hpicked
        rw [hpicked]
        rcases ih hx hrest with ⟨hfrom, hfirst, hall⟩
        refine ⟨.inr ?_, hfirst.trans hbetter.le, List.forall_mem_cons.mpr ⟨hfirst, hall⟩⟩
        rcases hfrom with hsame | hmem
        · rw [hsame]
          exact List.mem_cons_self
        · exact List.mem_cons_of_mem x hmem
      · rw [if_neg hbetter] at hpicked
        rw [hpicked]
        rcases ih hstart hrest with ⟨hfrom, hfirst, hall⟩
        refine ⟨hfrom.imp_right (List.mem_cons_of_mem x), hfirst, ?_⟩
        exact List.forall_mem_cons.mpr ⟨hfirst.trans (not_lt.mp hbetter), hall⟩

/-- The start is left only if some number has its place, since none comes after it. -/
theorem Ranks.isBest_bestOf (hranks : Ranks key pick seed) (hsome : xs ≠ [])
    (hxs : ∀ x ∈ xs, x.isNaN = false) : IsBest key xs (bestOf pick seed xs) := by
  rw [bestOf_eq_foldl hsome hxs]
  rcases hranks.foldl_spec hranks.seed_isNumber hxs with ⟨hsame | hmem, _, hall⟩
  · rcases List.exists_mem_of_ne_nil xs hsome with ⟨x, hx⟩
    rw [hsame] at hall ⊢
    exact ⟨hranks.seed_isNumber, ⟨x, hx, le_antisymm (hranks.seed_last x) (hall x hx)⟩, hall⟩
  · exact ⟨hxs _ hmem, ⟨_, hmem, rfl⟩, hall⟩

theorem Ranks.isNaN_bestOf_iff (hranks : Ranks key pick seed) :
    (bestOf pick seed xs).isNaN = true ↔ xs = [] ∨ ∃ x ∈ xs, x.isNaN = true := by
  constructor
  · intro hnan
    rcases broken_or_numbers xs with hbroken | ⟨hsome, hxs⟩
    · exact hbroken
    · rw [(hranks.isBest_bestOf hsome hxs).isNumber] at hnan
      cases hnan
  · intro hbroken
    rw [bestOf_eq_nan hbroken]
    rfl

theorem Ranks.bestOf_perm (hranks : Ranks key pick seed) (hperm : xs.Perm ys) :
    unsigned (bestOf pick seed xs) = unsigned (bestOf pick seed ys) := by
  rcases broken_or_numbers xs with hbroken | ⟨hsome, hxs⟩
  · have hbroken' : ys = [] ∨ ∃ y ∈ ys, y.isNaN = true := by
      rcases hbroken with rfl | ⟨x, hx, hnan⟩
      · exact .inl hperm.symm.eq_nil
      · exact .inr ⟨x, hperm.subset hx, hnan⟩
    rw [bestOf_eq_nan hbroken, bestOf_eq_nan hbroken']
  · have hsome' : ys ≠ [] := fun hnil => hsome (hnil ▸ hperm).eq_nil
    have hys : ∀ y ∈ ys, y.isNaN = false := fun y hy => hxs y (hperm.symm.subset hy)
    have hleft := hranks.isBest_bestOf hsome hxs
    have hright := hranks.isBest_bestOf hsome' hys
    have hplace := hranks.places _ _ (hleft.key_eq hright hperm)
    exact (beq_iff.mp ((beq_iff_place hleft.isNumber hright.isNumber).mpr hplace)).2

end Best

/-!
# The least and the greatest
-/

noncomputable def placeDown (x : Float) : ERealᵒᵈ :=
  OrderDual.toDual (place x)

theorem ranks_least :
    Ranks place (fun least x => if x < least then x else least) (1.0 / 0.0) where
  picks := by
    intro least x hleast hx
    simp only [lt_iff_place hx hleast]
  places := fun _ _ hsame => hsame
  seed_isNumber := rfl
  seed_last := by
    intro x
    have hseed : place (1.0 / 0.0) = ⊤ := place_of_positive_infinity rfl
    rw [hseed]
    exact le_top

theorem ranks_greatest :
    Ranks placeDown (fun greatest x => if greatest < x then x else greatest) (-1.0 / 0.0) where
  picks := by
    intro greatest x hgreatest hx
    simp only [lt_iff_place hgreatest hx, placeDown, OrderDual.toDual_lt_toDual]
  places := fun _ _ hsame => OrderDual.toDual.injective hsame
  seed_isNumber := rfl
  seed_last := by
    intro x
    have hseed : place (-1.0 / 0.0) = ⊥ := place_of_negative_infinity rfl
    show place (-1.0 / 0.0) ≤ place x
    rw [hseed]
    exact bot_le

theorem leastOf_eq_bestOf (xs : List Float) :
    leastOf xs = bestOf (fun least x => if x < least then x else least) (1.0 / 0.0) xs := rfl

theorem greatestOf_eq_bestOf (xs : List Float) :
    greatestOf xs =
      bestOf (fun greatest x => if greatest < x then x else greatest) (-1.0 / 0.0) xs := rfl

variable {xs : List Float}

theorem leastOf_spec (hsome : xs ≠ []) (hxs : ∀ x ∈ xs, x.isNaN = false) :
    (∃ x ∈ xs, (x == leastOf xs) = true) ∧ ∀ x ∈ xs, leastOf xs ≤ x := by
  have hbest := ranks_least.isBest_bestOf hsome hxs
  rw [← leastOf_eq_bestOf] at hbest
  constructor
  · rcases hbest.attained with ⟨x, hx, hsame⟩
    exact ⟨x, hx, (beq_iff_place (hxs x hx) hbest.isNumber).mpr hsame⟩
  · intro x hx
    exact (le_iff_place hbest.isNumber (hxs x hx)).mpr (hbest.extreme x hx)

theorem greatestOf_spec (hsome : xs ≠ []) (hxs : ∀ x ∈ xs, x.isNaN = false) :
    (∃ x ∈ xs, (x == greatestOf xs) = true) ∧ ∀ x ∈ xs, x ≤ greatestOf xs := by
  have hbest := ranks_greatest.isBest_bestOf hsome hxs
  rw [← greatestOf_eq_bestOf] at hbest
  constructor
  · rcases hbest.attained with ⟨x, hx, hsame⟩
    exact ⟨x, hx, (beq_iff_place (hxs x hx) hbest.isNumber).mpr (ranks_greatest.places _ _ hsame)⟩
  · intro x hx
    exact (le_iff_place (hxs x hx) hbest.isNumber).mpr (hbest.extreme x hx)

/-!
# Numbers with the other sign
-/

theorem IsBest.neg {best : Float} (hxs : ∀ x ∈ xs, x.isNaN = false)
    (h : IsBest place (xs.map Neg.neg) best) : IsBest placeDown xs (-best) := by
  constructor
  · rw [isNaN_neg]
    exact h.isNumber
  · rcases h.attained with ⟨y, hy, hsame⟩
    rcases List.mem_map.mp hy with ⟨x, hx, rfl⟩
    refine ⟨x, hx, congrArg OrderDual.toDual ?_⟩
    rw [place_neg h.isNumber, ← hsame, place_neg (hxs x hx), neg_neg]
  · intro x hx
    have hleast := h.extreme (-x) (List.mem_map_of_mem hx)
    rw [place_neg (hxs x hx)] at hleast
    show place x ≤ place (-best)
    rw [place_neg h.isNumber]
    exact EReal.le_neg_of_le_neg hleast

theorem greatestOf_eq_neg (xs : List Float) :
    unsigned (greatestOf xs) = unsigned (-leastOf (xs.map Neg.neg)) := by
  rcases broken_or_numbers xs with hbroken | ⟨hsome, hxs⟩
  · have hbroken' : xs.map Neg.neg = [] ∨ ∃ y ∈ xs.map Neg.neg, y.isNaN = true := by
      rcases hbroken with rfl | ⟨x, hx, hnan⟩
      · exact .inl rfl
      · exact .inr ⟨-x, List.mem_map_of_mem hx, (isNaN_neg x).trans hnan⟩
    rw [greatestOf_eq_bestOf, leastOf_eq_bestOf, bestOf_eq_nan hbroken, bestOf_eq_nan hbroken']
    rfl
  · have hsome' : xs.map Neg.neg ≠ [] := fun hnil => hsome (List.map_eq_nil_iff.mp hnil)
    have hneg : ∀ y ∈ xs.map Neg.neg, y.isNaN = false := by
      intro y hy
      rcases List.mem_map.mp hy with ⟨x, hx, rfl⟩
      rw [isNaN_neg]
      exact hxs x hx
    have hleft := ranks_greatest.isBest_bestOf hsome hxs
    have hright := (ranks_least.isBest_bestOf hsome' hneg).neg hxs
    have hplace := ranks_greatest.places _ _ (hleft.key_eq hright (.refl xs))
    exact (beq_iff.mp ((beq_iff_place hleft.isNumber hright.isNumber).mpr hplace)).2

/-- The least and the greatest of numbers are none if and only if there is none or one of them is
none. Else each is equal to one of the numbers and at one end of all of them. Neither hangs on the
order of the numbers, and one is the other with all signs changed, up to the sign of zero. -/
theorem extrema_exact (xs : List Float) :
    ((leastOf xs).isNaN = true ↔ xs = [] ∨ ∃ x ∈ xs, x.isNaN = true) ∧
      ((greatestOf xs).isNaN = true ↔ xs = [] ∨ ∃ x ∈ xs, x.isNaN = true) ∧
      (xs ≠ [] -> (∀ x ∈ xs, x.isNaN = false) ->
        ((∃ x ∈ xs, (x == leastOf xs) = true) ∧ ∀ x ∈ xs, leastOf xs ≤ x) ∧
          (∃ x ∈ xs, (x == greatestOf xs) = true) ∧ ∀ x ∈ xs, x ≤ greatestOf xs) ∧
      (∀ ys, xs.Perm ys -> unsigned (leastOf xs) = unsigned (leastOf ys) ∧
        unsigned (greatestOf xs) = unsigned (greatestOf ys)) ∧
      unsigned (greatestOf xs) = unsigned (-leastOf (xs.map Neg.neg)) := by
  refine ⟨ranks_least.isNaN_bestOf_iff, ranks_greatest.isNaN_bestOf_iff, ?_, ?_,
    greatestOf_eq_neg xs⟩
  · intro hsome hxs
    exact ⟨leastOf_spec hsome hxs, greatestOf_spec hsome hxs⟩
  · intro ys hperm
    exact ⟨ranks_least.bestOf_perm hperm, ranks_greatest.bestOf_perm hperm⟩

/-- Zeros of either sign between an infinity and a number, and an infinity that is the least. -/
theorem extrema_exact_infinite :
    let xs : List Float := [1.0 / 0.0, 0.0, -2.5, -0.0]
    let ys : List Float := [-0.0, 0.0, 1.0 / 0.0, -2.5]
    let tops : List Float := [1.0 / 0.0, 1.0 / 0.0]
    xs ≠ [] ∧ (∀ x ∈ xs, x.isNaN = false) ∧ xs.Perm ys ∧
      (∃ x ∈ xs, (x == leastOf xs) = true) ∧ (∀ x ∈ xs, leastOf xs ≤ x) ∧
      unsigned (greatestOf xs) = unsigned (greatestOf ys) ∧
      tops ≠ [] ∧ (∀ x ∈ tops, x.isNaN = false) ∧ ∃ x ∈ tops, (x == leastOf tops) = true := by
  intro xs ys tops
  have hxs : ∀ x ∈ xs, x.isNaN = false := by decide +kernel
  have htops : ∀ x ∈ tops, x.isNaN = false := by decide +kernel
  have hperm : xs.Perm ys := by decide +kernel
  rcases extrema_exact xs with ⟨_, _, hspec, hperms, _⟩
  rcases hspec (List.cons_ne_nil _ _) hxs with ⟨⟨hattained, hleast⟩, _⟩
  rcases (extrema_exact tops).2.2.1 (List.cons_ne_nil _ _) htops with ⟨⟨htop, _⟩, _⟩
  exact ⟨List.cons_ne_nil _ _, hxs, hperm, hattained, hleast, (hperms ys hperm).2,
    List.cons_ne_nil _ _, htops, htop⟩

end Op
end Reckoner
