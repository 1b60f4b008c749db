import Reckoner.Expr.Operation
import Mathlib.Data.List.Induction

/-!
# Facts that expressions cannot tell apart

An absent fact and null are two facts, and yet no operator tells one from the other,
on its own or inside a list.  Filling up a fact puts null in the place of all that is
absent in it.  Facts are alike if they are equal after that, and whatever an
expression reads off a fact is the same for facts that are alike.
-/

namespace Reckoner

namespace Fact

mutual

/-- The fact with null in the place of everything absent. -/
def filled : Fact -> Fact
  | .absent => .null
  | .null => .null
  | .bool value => .bool value
  | .num value => .num value
  | .str value => .str value
  | .list items => .list (filledItems items)
  | .map entries => .map (filledEntries entries)

def filledItems : List Fact -> List Fact
  | [] => []
  | item :: rest => item.filled :: filledItems rest

def filledEntries : List (String × Fact) -> List (String × Fact)
  | [] => []
  | (name, value) :: rest => (name, value.filled) :: filledEntries rest

end

def Alike (x y : Fact) : Prop :=
  x.filled = y.filled

def AllAlike (xs ys : List Fact) : Prop :=
  filledItems xs = filledItems ys

theorem Alike.refl (x : Fact) : x.Alike x := rfl

theorem AllAlike.refl (xs : List Fact) : AllAlike xs xs := rfl

theorem AllAlike.cons {x y : Fact} {xs ys : List Fact} (hhead : x.Alike y)
    (htail : AllAlike xs ys) : AllAlike (x :: xs) (y :: ys) := by
  unfold AllAlike filledItems
  rw [hhead, htail]

theorem Alike.list {xs ys : List Fact} (hitems : AllAlike xs ys) :
    (Fact.list xs).Alike (.list ys) :=
  congrArg Fact.list hitems

theorem filledItems_eq_map (xs : List Fact) : filledItems xs = xs.map filled := by
  induction xs with
  | nil => rfl
  | cons x rest ih =>
      unfold filledItems
      rw [ih]
      rfl

theorem length_filledItems (xs : List Fact) : (filledItems xs).length = xs.length := by
  rw [filledItems_eq_map, List.length_map]

theorem length_filledEntries (entries : List (String × Fact)) :
    (filledEntries entries).length = entries.length := by
  induction entries with
  | nil => rfl
  | cons entry rest ih => exact congrArg Nat.succ ih

/-!
# What is read off one fact

Filling up leaves the truth value, the number, the size, the parts and the text of a
fact as they are.
-/

theorem truthy_filled (x : Fact) : x.filled.truthy = x.truthy := by
  cases x with
  | list items =>
      cases items with
      | nil => rfl
      | cons item rest => rfl
  | _ => rfl

theorem number_filled (x : Fact) : x.filled.number = x.number := by
  cases x with
  | bool value => rfl
  | _ => rfl

theorem str?_filled (x : Fact) : x.filled.str? = x.str? := by
  cases x with
  | _ => rfl

theorem items_filled (x : Fact) : x.filled.items = filledItems x.items := by
  cases x with
  | _ => rfl

theorem size_filled (x : Fact) : x.filled.size = x.size := by
  cases x with
  | list items => exact length_filledItems items
  | map entries => exact length_filledEntries entries
  | _ => rfl

theorem contains_filledEntries (entries : List (String × Fact)) (name : String) :
    Table.contains (filledEntries entries) name = Table.contains entries name := by
  induction entries with
  | nil => rfl
  | cons entry rest ih =>
      unfold filledEntries
      unfold Table.contains at ih ⊢
      by_cases hname : entry.1 = name
      · simp [Table.get?, hname]
      · simp only [Table.get?, hname, if_false]
        exact ih

mutual

theorem toJson_filled : ∀ x : Fact, x.filled.toJson = x.toJson
  | .absent => rfl
  | .null => rfl
  | .bool _ => rfl
  | .num _ => rfl
  | .str _ => rfl
  | .list items => congrArg Json.arr (toItems_filledItems items)
  | .map entries => congrArg Json.obj (toEntries_filledEntries entries)

theorem toItems_filledItems : ∀ items : List Fact, toItems (filledItems items) = toItems items
  | [] => rfl
  | item :: rest => by
      unfold filledItems toItems
      rw [toJson_filled item, toItems_filledItems rest]

theorem toEntries_filledEntries :
    ∀ entries : List (String × Fact), toEntries (filledEntries entries) = toEntries entries
  | [] => rfl
  | (name, value) :: rest => by
      unfold filledEntries toEntries
      rw [toJson_filled value, toEntries_filledEntries rest]

end

/-!
# Comparing facts
-/

mutual

theorem looseEq_filled : ∀ x y : Fact, x.filled.looseEq y.filled = x.looseEq y
  | .absent, y => by cases y <;> simp [filled, looseEq]
  | .null, y => by cases y <;> simp [filled, looseEq]
  | .bool _, y => by cases y <;> simp [filled, looseEq]
  | .num _, y => by cases y <;> simp [filled, looseEq]
  | .str _, y => by cases y <;> simp [filled, looseEq]
  | .list xs, y => by
      cases y with
      | list ys => simpa [filled, looseEq] using looseEqItems_filledItems xs ys
      | _ => simp [filled, looseEq]
  | .map xs, y => by
      cases y with
      | map ys => simpa [filled, looseEq] using looseEqEntries_filledEntries xs ys
      | _ => simp [filled, looseEq]

theorem looseEqItems_filledItems : ∀ xs ys : List Fact,
    looseEqItems (filledItems xs) (filledItems ys) = looseEqItems xs ys
  | [], [] => rfl
  | [], _ :: _ => rfl
  | _ :: _, [] => rfl
  | x :: xs, y :: ys => by
      unfold filledItems looseEqItems
      rw [looseEq_filled x y, looseEqItems_filledItems xs ys]

theorem looseEqEntries_filledEntries : ∀ xs ys : List (String × Fact),
    looseEqEntries (filledEntries xs) (filledEntries ys) = looseEqEntries xs ys
  | [], [] => rfl
  | [], _ :: _ => rfl
  | _ :: _, [] => rfl
  | (k, x) :: xs, (l, y) :: ys => by
      unfold filledEntries looseEqEntries
      rw [looseEq_filled x y, looseEqEntries_filledEntries xs ys]

end

/-!
# Facts as collections
-/

theorem among_filledItems (items : List Fact) (x : Fact) :
    among (filledItems items) x.filled = among items x := by
  induction items with
  | nil => rfl
  | cons item rest ih =>
      unfold among at ih ⊢
      unfold filledItems
      rw [List.any_cons, List.any_cons, looseEq_filled, ih]

theorem holds_filled (collection x : Fact) :
    collection.filled.holds x.filled = collection.holds x := by
  cases collection with
  | list items => exact among_filledItems items x
  | str text =>
      show x.filled.str?.any _ = x.str?.any _
      rw [str?_filled]
  | map entries =>
      show x.filled.str?.any (Table.contains (filledEntries entries)) =
        x.str?.any (Table.contains entries)
      rw [str?_filled, funext (contains_filledEntries entries)]
  | _ => rfl

theorem overlaps_filledItems (as bs : List Fact) :
    overlaps (filledItems as) (filledItems bs) = overlaps as bs := by
  unfold overlaps
  rw [filledItems_eq_map, filledItems_eq_map, List.any_map]
  simp only [List.any_map, Function.comp_def, looseEq_filled]

/-- Common members are chosen by comparing, so the same ones are chosen before and
after everything is filled up. -/
theorem intersect_filledItems (as bs : List Fact) :
    intersect (filledItems as) (filledItems bs) = filledItems (intersect as bs) := by
  induction as using List.reverseRecOn with
  | nil => rfl
  | append_singleton as a ih =>
      have hconcat (xs : List Fact) : filledItems (xs ++ [a]) = filledItems xs ++ [a.filled] := by
        simp [filledItems_eq_map]
      rw [hconcat, intersect_concat, intersect_concat, ih, among_filledItems, among_filledItems]
      split
      · rw [hconcat]
      · rfl

end Fact

namespace Op

/-!
# Operators
-/

theorem flatNumbers_filledItems (args : List Fact) :
    flatNumbers (Fact.filledItems args) = flatNumbers args := by
  induction args with
  | nil => rfl
  | cons arg rest ih =>
      unfold flatNumbers at ih ⊢
      unfold Fact.filledItems
      rw [List.flatMap_cons, List.flatMap_cons, ih]
      congr 1
      cases arg with
      | list items =>
          simp [Fact.filled, Fact.filledItems_eq_map, Fact.number_filled]
      | bool value => rfl
      | _ => rfl

theorem numbers_filledItems (args : List Fact) :
    (Fact.filledItems args).map Fact.number = args.map Fact.number := by
  rw [Fact.filledItems_eq_map, List.map_map]
  exact List.map_congr_left fun x _ => Fact.number_filled x

theorem filled_getD (args : List Fact) (i : Nat) (default : Fact) :
    (args.getD i default).filled = (Fact.filledItems args).getD i default.filled := by
  rw [Fact.filledItems_eq_map]
  simp only [List.getD_eq_getElem?_getD, List.getElem?_map]
  cases args[i]? with
  | none => rfl
  | some x => rfl

end Op

namespace Fact

/-!
# Alike facts give alike answers
-/

theorem Alike.truthy {x y : Fact} (h : x.Alike y) : x.truthy = y.truthy := by
  rw [← truthy_filled x, h, truthy_filled y]

theorem Alike.number {x y : Fact} (h : x.Alike y) : x.number = y.number := by
  rw [← number_filled x, h, number_filled y]

theorem Alike.items {x y : Fact} (h : x.Alike y) : AllAlike x.items y.items := by
  unfold AllAlike
  rw [← items_filled x, h, items_filled y]

theorem Alike.size {x y : Fact} (h : x.Alike y) : x.size = y.size := by
  rw [← size_filled x, h, size_filled y]

theorem Alike.toJson {x y : Fact} (h : x.Alike y) : x.toJson = y.toJson := by
  rw [← toJson_filled x, h, toJson_filled y]

theorem Alike.looseEq {x y x' y' : Fact} (hx : x.Alike x') (hy : y.Alike y') :
    x.looseEq y = x'.looseEq y' := by
  rw [← looseEq_filled x y, hx, hy, looseEq_filled x' y']

theorem Alike.holds {x y x' y' : Fact} (hx : x.Alike x') (hy : y.Alike y') :
    x.holds y = x'.holds y' := by
  rw [← holds_filled x y, hx, hy, holds_filled x' y']

theorem AllAlike.overlaps {as bs as' bs' : List Fact} (ha : AllAlike as as')
    (hb : AllAlike bs bs') : Fact.overlaps as bs = Fact.overlaps as' bs' := by
  rw [← overlaps_filledItems as bs, ha, hb, overlaps_filledItems as' bs']

theorem AllAlike.intersect {as bs as' bs' : List Fact} (ha : AllAlike as as')
    (hb : AllAlike bs bs') :
    AllAlike (Fact.intersect as bs) (Fact.intersect as' bs') := by
  unfold AllAlike
  rw [← intersect_filledItems as bs, ha, hb, intersect_filledItems as' bs']

theorem AllAlike.numbers {xs ys : List Fact} (h : AllAlike xs ys) :
    xs.map Fact.number = ys.map Fact.number := by
  rw [← Op.numbers_filledItems xs, h, Op.numbers_filledItems ys]

theorem AllAlike.flatNumbers {xs ys : List Fact} (h : AllAlike xs ys) :
    Op.flatNumbers xs = Op.flatNumbers ys := by
  rw [← Op.flatNumbers_filledItems xs, h, Op.flatNumbers_filledItems ys]

theorem AllAlike.getD {xs ys : List Fact} (h : AllAlike xs ys) (i : Nat) (default : Fact) :
    (xs.getD i default).Alike (ys.getD i default) := by
  unfold Alike
  rw [Op.filled_getD, h, Op.filled_getD]

end Fact

namespace Op

theorem apply_alike (op : Op) (isStrict : op.reads ≠ .lazy) {xs ys : List Fact}
    (h : Fact.AllAlike xs ys) : (op.apply isStrict xs).Alike (op.apply isStrict ys) := by
  have harg (i : Nat) : (xs.getD i .absent).Alike (ys.getD i .absent) := h.getD i .absent
  cases op with
  | and | or | cond => exact absurd rfl isStrict
  | not => exact congrArg (fun answer => Fact.bool (!answer)) (harg 0).truthy
  | eq => exact congrArg Fact.bool ((harg 0).looseEq (harg 1))
  | ne => exact congrArg (fun answer => Fact.bool (!answer)) ((harg 0).looseEq (harg 1))
  | isIn => exact congrArg Fact.bool ((harg 1).holds (harg 0))
  | overlap => exact congrArg Fact.bool ((harg 0).items.overlaps (harg 1).items)
  | intersect => exact Fact.Alike.list ((harg 0).items.intersect (harg 1).items)
  | len => exact congrArg (fun n => Fact.num (Float.ofNat n)) (harg 0).size
  | add => exact congrArg (fun ns => Fact.num (sumOf ns)) h.numbers
  | sub => exact congrArg (fun ns => Fact.num (differenceOf ns)) h.numbers
  | mul => exact congrArg (fun ns => Fact.num (productOf ns)) h.numbers
  | div => exact congrArg (fun ns => Fact.num (quotientOf ns)) h.numbers
  | neg => exact congrArg (fun n => Fact.num (-n)) (harg 0).number
  | abs => exact congrArg (fun n => Fact.num n.abs) (harg 0).number
  | min => exact congrArg (fun ns => Fact.num (leastOf ns)) h.flatNumbers
  | max => exact congrArg (fun ns => Fact.num (greatestOf ns)) h.flatNumbers
  | sum => exact congrArg (fun ns => Fact.num (sumOf ns)) h.flatNumbers
  | lt | lte | gt | gte | clamp =>
      simp only [apply, (harg 0).number, (harg 1).number, (harg 2).number]
      exact Fact.Alike.refl _

end Op
end Reckoner
