import Reckoner.Proofs.Fact.Numbers
import Reckoner.Proofs.Table

/-!
# Loose equality

Facts are loosely equal if they are the same fact when made plain, and no number in
them is none.  So loose equality is an equivalence of facts without such numbers, and a
fact with one of them equals nothing.  It is the equality of what is shown for facts
whose numbers are finite.
-/

namespace Reckoner

namespace Fact

/-!
# Comparing what is plain
-/

mutual

theorem looseEq_iff : ∀ x y : Fact,
    x.looseEq y = true ↔ (∀ n ∈ x.numbers, n.isNaN = false) ∧ x.plain = y.plain
  | .absent, y => by cases y <;> simp [looseEq, numbers, plain, renumber]
  | .null, y => by cases y <;> simp [looseEq, numbers, plain, renumber]
  | .bool _, y => by cases y <;> simp [looseEq, numbers, plain, renumber]
  | .num _, y => by cases y <;> simp [looseEq, numbers, plain, renumber, Number.beq_iff]
  | .str _, y => by cases y <;> simp [looseEq, numbers, plain, renumber]
  | .list xs, y => by
      cases y with
      | list ys => simpa [looseEq, numbers, plain, renumber] using looseEqItems_iff xs ys
      | _ => simp [looseEq, plain, renumber]
  | .map xs, y => by
      cases y with
      | map ys => simpa [looseEq, numbers, plain, renumber] using looseEqEntries_iff xs ys
      | _ => simp [looseEq, plain, renumber]

theorem looseEqItems_iff : ∀ xs ys : List Fact,
    looseEqItems xs ys = true ↔
      (∀ n ∈ numbersOf xs, n.isNaN = false) ∧
        renumberItems (fun n => .num (Number.unsigned n)) xs =
          renumberItems (fun n => .num (Number.unsigned n)) ys
  | [], [] => by simp [looseEqItems, numbersOf]
  | [], _ :: _ => by simp [looseEqItems, renumberItems]
  | _ :: _, [] => by simp [looseEqItems, renumberItems]
  | x :: xs, y :: ys => by
      have hhead := looseEq_iff x y
      have hrest := looseEqItems_iff xs ys
      unfold plain at hhead
      unfold looseEqItems numbersOf renumberItems
      rw [Bool.and_eq_true, hhead, hrest, List.forall_mem_append, List.cons.injEq]
      exact and_and_and_comm

theorem looseEqEntries_iff : ∀ xs ys : List (String × Fact),
    looseEqEntries xs ys = true ↔
      (∀ n ∈ numbersUnder xs, n.isNaN = false) ∧
        renumberEntries (fun n => .num (Number.unsigned n)) xs =
          renumberEntries (fun n => .num (Number.unsigned n)) ys
  | [], [] => by simp [looseEqEntries, numbersUnder]
  | [], _ :: _ => by simp [looseEqEntries, renumberEntries]
  | _ :: _, [] => by simp [looseEqEntries, renumberEntries]
  | (k, x) :: xs, (l, y) :: ys => by
      have hhead := looseEq_iff x y
      have hrest := looseEqEntries_iff xs ys
      unfold plain at hhead
      unfold looseEqEntries numbersUnder renumberEntries
      rw [Bool.and_eq_true, Bool.and_eq_true, beq_iff_eq, hhead, hrest, List.forall_mem_append,
        List.cons.injEq, Prod.mk.injEq]
      tauto

end

/-!
# A partial equivalence
-/

/-- What holds of numbers up to the sign of zero is the same in facts that are the same when made
plain. -/
theorem numbers_of_plain_eq {P : Float -> Prop} (hP : ∀ n, P (Number.unsigned n) ↔ P n)
    {x y : Fact} (h : x.plain = y.plain) (hx : ∀ n ∈ x.numbers, P n) : ∀ n ∈ y.numbers, P n := by
  have hnumbers : x.numbers.map Number.unsigned = y.numbers.map Number.unsigned := by
    rw [← numbers_plain, h, numbers_plain]
  intro n hn
  have hmem : Number.unsigned n ∈ x.numbers.map Number.unsigned :=
    hnumbers ▸ List.mem_map_of_mem hn
  obtain ⟨m, hm, hsame⟩ := List.mem_map.mp hmem
  rw [← hP, ← hsame, hP]
  exact hx m hm

theorem looseEq_symm {x y : Fact} (h : x.looseEq y = true) : y.looseEq x = true := by
  obtain ⟨hx, hplain⟩ := (looseEq_iff x y).mp h
  have hnan (n : Float) : (Number.unsigned n).isNaN = false ↔ n.isNaN = false := by
    rw [Number.isNaN_unsigned]
  exact (looseEq_iff y x).mpr ⟨numbers_of_plain_eq hnan hplain hx, hplain.symm⟩

theorem looseEq_comm (x y : Fact) : x.looseEq y = y.looseEq x := by
  rw [Bool.eq_iff_iff]
  exact ⟨looseEq_symm, looseEq_symm⟩

theorem looseEq_trans {x y z : Fact} (hxy : x.looseEq y = true) (hyz : y.looseEq z = true) :
    x.looseEq z = true := by
  obtain ⟨hx, hplain⟩ := (looseEq_iff x y).mp hxy
  obtain ⟨_, hplain'⟩ := (looseEq_iff y z).mp hyz
  exact (looseEq_iff x z).mpr ⟨hx, hplain.trans hplain'⟩

theorem looseEq_self_iff (x : Fact) :
    x.looseEq x = true ↔ ∀ n ∈ x.numbers, n.isNaN = false := by
  rw [looseEq_iff]
  exact and_iff_left rfl

/-!
# Maps

Entries are compared in pairs, one after another.  In tables the pairs are those of
equal names, since tables with the same names list them in the same order.
-/

theorem keys_of_looseEqEntries : ∀ {as bs : List (String × Fact)},
    looseEqEntries as bs = true -> Table.keys as = Table.keys bs
  | [], [], _ => rfl
  | (k, a) :: as, (l, b) :: bs, h => by
      unfold looseEqEntries at h
      rw [Bool.and_eq_true, Bool.and_eq_true, beq_iff_eq] at h
      obtain ⟨⟨hname, _⟩, hrest⟩ := h
      show k :: Table.keys as = l :: Table.keys bs
      rw [hname, keys_of_looseEqEntries hrest]

theorem looseEqEntries_iff_values : ∀ {as bs : List (String × Fact)},
    Table.keys as = Table.keys bs -> (Table.keys as).Nodup ->
    (looseEqEntries as bs = true ↔
      ∀ name a b, Table.get? as name = some a -> Table.get? bs name = some b ->
        a.looseEq b = true)
  | [], [], _, _ => by
      constructor
      · rintro _ _ _ _ ⟨⟩
      · intro _
        rfl
  | (k, a) :: as, (l, b) :: bs, hkeys, hnodup => by
      obtain ⟨rfl, hrest⟩ := List.cons.inj hkeys
      obtain ⟨hfresh, hnodup⟩ := List.nodup_cons.mp hnodup
      have ih := looseEqEntries_iff_values hrest hnodup
      unfold looseEqEntries
      rw [beq_self_eq_true, Bool.true_and, Bool.and_eq_true, ih]
      constructor
      · rintro ⟨hhead, htail⟩ name x y hx hy
        by_cases hname : k = name
        · simp only [Table.get?, hname, if_true, Option.some.injEq] at hx hy
          rw [← hx, ← hy]
          exact hhead
        · simp only [Table.get?, hname, if_false] at hx hy
          exact htail name x y hx hy
      · intro h
        constructor
        · exact h k a b (if_pos rfl) (if_pos rfl)
        · intro name x y hx hy
          have hname : k ≠ name := by
            rintro rfl
            have hmem := List.mem_map_of_mem (f := Prod.fst) (Table.mem_of_get? hx)
            exact hfresh hmem
          exact h name x y ((if_neg hname).trans hx) ((if_neg hname).trans hy)

theorem looseEq_map_iff {as bs : Table Fact} (has : as.Sorted) (hbs : bs.Sorted) :
    (Fact.map as).looseEq (.map bs) = true ↔
      (∀ name, name ∈ as.keys ↔ name ∈ bs.keys) ∧
        ∀ name a b, as.get? name = some a -> bs.get? name = some b -> a.looseEq b = true := by
  show looseEqEntries as bs = true ↔ _
  constructor
  · intro h
    have hkeys := keys_of_looseEqEntries h
    constructor
    · intro name
      rw [hkeys]
    · exact (looseEqEntries_iff_values hkeys has.nodup_keys).mp h
  · rintro ⟨hnames, hvalues⟩
    have hkeys := Table.keys_eq_of_mem_iff has hbs hnames
    exact (looseEqEntries_iff_values hkeys has.nodup_keys).mpr hvalues

/-- Loose equality is symmetric and transitive, a fact equals itself unless a number in it is
none, and maps are equal name by name. -/
theorem looseEq_partial_equivalence :
    (∀ a b : Fact, a.looseEq b = b.looseEq a) ∧
      (∀ a b c : Fact, a.looseEq b = true -> b.looseEq c = true -> a.looseEq c = true) ∧
      (∀ a : Fact, a.looseEq a = true ↔ ∀ n ∈ a.numbers, n.isNaN = false) ∧
      ∀ as bs : Table Fact, as.Sorted -> bs.Sorted ->
        ((Fact.map as).looseEq (.map bs) = true ↔
          (∀ name, name ∈ as.keys ↔ name ∈ bs.keys) ∧
            ∀ name a b, as.get? name = some a -> bs.get? name = some b -> a.looseEq b = true) := by
  refine ⟨looseEq_comm, ?_, looseEq_self_iff, ?_⟩
  · intro a b c
    exact looseEq_trans
  · intro as bs
    exact looseEq_map_iff

/-- Zeros of either sign and null for what is absent, beside a number that is none. -/
theorem looseEq_partial_equivalence_zeros :
    let as : Table Fact := [("gone", .absent), ("zeros", .list [.num 0.0, .num (-0.0)])]
    let bs : Table Fact := [("gone", .null), ("zeros", .list [.num (-0.0), .num (-0.0)])]
    let cs : Table Fact := [("gone", .absent), ("zeros", .list [.num (-0.0), .num 0.0])]
    let broken : Fact := .list [.num nan, .map as]
    as.Sorted ∧ bs.Sorted ∧
      (Fact.map as).looseEq (.map bs) = true ∧ (Fact.map bs).looseEq (.map cs) = true ∧
      (Fact.map as).looseEq (.map cs) = true ∧ (Fact.map cs).looseEq (.map as) = true ∧
      (∀ name a b, as.get? name = some a -> bs.get? name = some b -> a.looseEq b = true) ∧
      ¬ broken.looseEq broken = true := by
  intro as bs cs broken
  obtain ⟨hcomm, htrans, hself, hmaps⟩ := looseEq_partial_equivalence
  have has : as.Sorted := by decide
  have hbs : bs.Sorted := by decide
  have hab : (Fact.map as).looseEq (.map bs) = true := by decide +kernel
  have hbc : (Fact.map bs).looseEq (.map cs) = true := by decide +kernel
  have hac := htrans _ _ _ hab hbc
  refine ⟨has, hbs, hab, hbc, hac, (hcomm _ _).trans hac, ((hmaps as bs has hbs).mp hab).2, ?_⟩
  intro hbroken
  have hnan := (hself broken).mp hbroken nan List.mem_cons_self
  cases hnan

/-!
# What is shown
-/

theorem ofJson_ofNumber_of_finite {n : Float} (hn : n.isFinite = true) :
    ofJson (.ofNumber n) = .num (Number.unsigned n) := by
  obtain ⟨number, hnumber, _, hvalue⟩ := Json.exists_ofNumber hn
  rw [hnumber, ← hvalue]
  rfl

theorem ofJson_toJson_of_finite {x : Fact} (hx : ∀ n ∈ x.numbers, n.isFinite = true) :
    ofJson x.toJson = x.plain := by
  rw [ofJson_toJson]
  apply renumber_congr
  intro n hn
  exact ofJson_ofNumber_of_finite (hx n hn)

/-- Facts that are loosely equal are shown as the same value, and facts of finite numbers that
are shown as the same value are loosely equal. -/
theorem toJson_eq_iff_looseEq (a b : Fact) :
    (a.looseEq b = true -> a.toJson = b.toJson) ∧
      ((∀ n ∈ a.numbers, n.isFinite = true) -> (∀ n ∈ b.numbers, n.isFinite = true) ->
        a.toJson = b.toJson -> a.looseEq b = true) := by
  constructor
  · intro hequal
    obtain ⟨_, hplain⟩ := (looseEq_iff a b).mp hequal
    rw [← toJson_plain, hplain, toJson_plain]
  · intro ha hb hshown
    apply (looseEq_iff a b).mpr
    constructor
    · intro n hn
      exact Decimal.isNaN_of_isFinite (ha n hn)
    · rw [← ofJson_toJson_of_finite ha, hshown, ofJson_toJson_of_finite hb]

/-- Whole numbers on both sides of the greatest safe one, and a zero with a sign. -/
theorem toJson_eq_iff_looseEq_whole :
    let a : Fact := .list [.absent, .num (-0.0), .num 9007199254740991, .num 9007199254740992]
    let b : Fact := .list [.null, .num 0.0, .num 9007199254740991, .num 9007199254740992]
    let shown : Json := .arr [.null, .num (.int 0), .num (.int 9007199254740991),
      .num (.double 9007199254740992)]
    (∀ n ∈ a.numbers, n.isFinite = true) ∧ (∀ n ∈ b.numbers, n.isFinite = true) ∧
      a.toJson = shown ∧ b.toJson = shown ∧ a.looseEq b = true := by
  intro a b shown
  have ha : ∀ n ∈ a.numbers, n.isFinite = true := by decide +kernel
  have hb : ∀ n ∈ b.numbers, n.isFinite = true := by decide +kernel
  have hshown : a.toJson = shown := rfl
  have hequal := (toJson_eq_iff_looseEq a b).2 ha hb rfl
  exact ⟨ha, hb, hshown, ((toJson_eq_iff_looseEq a b).1 hequal).symm.trans hshown, hequal⟩

end Fact
end Reckoner
