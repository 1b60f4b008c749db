import Reckoner.Competition.Quantity
import Mathlib.Algebra.BigOperators.Group.List.Basic
import Mathlib.Algebra.Order.Field.Basic
import Mathlib.Tactic.Linarith

/-!
# Exact arithmetic

The numbers of an ordered field are quantities without rounding.  All of them are
finite.  Where values that are not finite come in from outside they are added to the
field.  No operation has a number for a result then unless all of its arguments are
numbers, and division by zero has none at all: what is a number has come about from
numbers only, and without such a division.
-/

namespace Reckoner

universe u

section Field

variable {K : Type u} [Field K] [LinearOrder K] [Pow K K]

instance : Quantity K where
  decimal m e := m / 10 ^ e
  ofNat n := n
  add := (· + ·)
  sub := (· - ·)
  mul := (· * ·)
  div := (· / ·)
  pow := (· ^ ·)
  lt x y := decide (x < y)
  isFinite _ := true

theorem Quantity.sum_eq_sum (xs : List K) : Quantity.sum xs = xs.sum := by
  have hfold : Quantity.sum xs = xs.foldl (· + ·) ((0 : Nat) : K) := rfl
  rw [hfold, List.sum_eq_foldl, Nat.cast_zero]

end Field

/-- A number, an infinity, or nothing that could be computed with. -/
inductive Exact (K : Type u) where
  | number (x : K)
  | infinite (negative : Bool)
  | undefined

namespace Exact

section Operations

variable {K : Type u} [Field K] [LinearOrder K] [Pow K K]

def lift (f : K -> K -> K) : Exact K -> Exact K -> Exact K
  | number x, number y => number (f x y)
  | _, _ => undefined

/-- Division, without a result for a divisor of zero. -/
def divide : Exact K -> Exact K -> Exact K
  | number x, number y => if y = 0 then undefined else number (x / y)
  | _, _ => undefined

def before : Exact K -> Exact K -> Bool
  | number x, number y => decide (x < y)
  | number _, infinite negative => !negative
  | infinite negative, number _ => negative
  | infinite negative, infinite negative' => negative && !negative'
  | _, _ => false

def isNumber : Exact K -> Bool
  | number _ => true
  | _ => false

instance : Quantity (Exact K) where
  decimal m e := number (m / 10 ^ e)
  ofNat n := number n
  add := lift (· + ·)
  sub := lift (· - ·)
  mul := lift (· * ·)
  div := divide
  pow := lift (· ^ ·)
  lt := before
  isFinite := isNumber

end Operations

def Within {K : Type u} [LE K] (low high : K) (x : Exact K) : Prop :=
  ∃ a, x = number a ∧ low ≤ a ∧ a ≤ high

theorem exists_numbers {K : Type u} [LE K] {low high : K} {xs : List (Exact K)}
    (hxs : ∀ x ∈ xs, Within low high x) :
    ∃ as : List K, xs = as.map number ∧ ∀ a ∈ as, low ≤ a ∧ a ≤ high := by
  induction xs with
  | nil => exact ⟨[], rfl, fun a ha => nomatch ha⟩
  | cons x xs ih =>
      obtain ⟨a, rfl, hbounds⟩ := hxs x List.mem_cons_self
      obtain ⟨as, rfl, hrest⟩ := ih fun y hy => hxs y (List.mem_cons_of_mem _ hy)
      refine ⟨a :: as, rfl, ?_⟩
      intro b hb
      rcases List.mem_cons.mp hb with rfl | hmem
      · exact hbounds
      · exact hrest b hmem

/-!
# Computing with numbers
-/

section Numbers

open Quantity

variable {K : Type u} [Field K] [LinearOrder K] [Pow K K]

@[simp] theorem zero_eq : (zero : Exact K) = number 0 :=
  congrArg number Nat.cast_zero

@[simp] theorem one_eq : (one : Exact K) = number 1 :=
  congrArg number Nat.cast_one

@[simp] theorem add_number (x y : K) : add (number x) (number y) = number (x + y) := rfl

@[simp] theorem sub_number (x y : K) : sub (number x) (number y) = number (x - y) := rfl

@[simp] theorem mul_number (x y : K) : mul (number x) (number y) = number (x * y) := rfl

@[simp] theorem pow_number (x y : K) : pow (number x) (number y) = number (x ^ y) := rfl

@[simp] theorem lt_number (x y : K) : lt (number x) (number y) = decide (x < y) := rfl

theorem div_number {y : K} (hy : y ≠ 0) (x : K) :
    div (number x) (number y) = number (x / y) :=
  if_neg hy

instance : RightCommutative (add : Exact K -> Exact K -> Exact K) where
  right_comm x y z := by
    cases x <;> cases y <;> cases z <;>
      first
      | rfl
      | exact congrArg number (add_right_comm _ _ _)

theorem sum_perm {xs ys : List (Exact K)} (h : xs.Perm ys) : sum xs = sum ys :=
  h.foldl_eq zero

theorem sum_map_number (as : List K) : sum (as.map number) = number as.sum := by
  have hfold (bs : List K) (start : K) :
      (bs.map number).foldl add (number start) = number (start + bs.sum) := by
    induction bs generalizing start with
    | nil => simp
    | cons b bs ih => simp [ih, add_assoc]
  rw [sum, zero_eq, hfold, zero_add]

end Numbers

/-!
# Moving numbers into range
-/

section Range

open Quantity

variable {K : Type u} [Field K] [LinearOrder K] [IsStrictOrderedRing K] [Pow K K]

theorem within_clampUnit (x : K) : Within 0 1 (clampUnit (number x)) := by
  unfold clampUnit
  simp only [zero_eq, one_eq, lt_number, decide_eq_true_eq]
  split
  · exact ⟨0, rfl, le_rfl, zero_le_one⟩
  · split
    · exact ⟨1, rfl, zero_le_one, le_rfl⟩
    · exact ⟨x, rfl, by linarith, by linarith⟩

theorem exists_atLeast (low x : K) :
    ∃ y, atLeast (number low) (number x) = number y ∧ low ≤ y := by
  unfold atLeast
  simp only [lt_number, decide_eq_true_eq]
  split
  · exact ⟨low, rfl, le_rfl⟩
  · exact ⟨x, rfl, by linarith⟩

end Range

end Exact
end Reckoner
