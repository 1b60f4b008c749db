import Reckoner.Expr.Op
import Reckoner.Fact.Collection

/-!
# What operators compute

The value of every operator that knows its arguments beforehand.  Numbers are
doubles, and sums, products and quotients are taken from left to right.
-/

namespace Reckoner
namespace Op

/-- The sum from left to right. The sum of nothing is negative zero, which adding leaves alone. -/
def sumOf (xs : List Float) : Float :=
  xs.foldl (· + ·) (-0.0)

def productOf (xs : List Float) : Float :=
  xs.foldl (· * ·) 1.0

/-- What is left of the first number after all others are taken from it. A single number is
negated. -/
def differenceOf : List Float -> Float
  | [] => Fact.nan
  | [x] => -x
  | x :: xs => xs.foldl (· - ·) x

def quotientOf : List Float -> Float
  | [] => Fact.nan
  | x :: xs => xs.foldl (· / ·) x

/-- The least of numbers, which is none if there is no number or one of them is none. -/
def leastOf (xs : List Float) : Float :=
  if xs.isEmpty || xs.any Float.isNaN then
    Fact.nan
  else
    xs.foldl (fun least x => if x < least then x else least) (1.0 / 0.0)

def greatestOf (xs : List Float) : Float :=
  if xs.isEmpty || xs.any Float.isNaN then
    Fact.nan
  else
    xs.foldl (fun greatest x => if greatest < x then x else greatest) (-1.0 / 0.0)

/-- A number moved to the nearest place between two bounds; the upper bound wins. -/
def clampTo (x low high : Float) : Float :=
  if x.isNaN || low.isNaN || high.isNaN then
    Fact.nan
  else
    let raised := if x < low then low else x
    if high < raised then high else raised

/-- The numbers of arguments, of which a list contributes the number of each of its items. -/
def flatNumbers (args : List Fact) : List Float :=
  args.flatMap fun arg =>
    match arg with
    | .list items => items.map Fact.number
    | other => [other.number]

def apply (op : Op) (isStrict : op.reads ≠ .lazy) (args : List Fact) : Fact :=
  let arg (i : Nat) : Fact := args.getD i .absent
  match op, isStrict with
  | .not, _ => .bool (!(arg 0).truthy)
  | .eq, _ => .bool ((arg 0).looseEq (arg 1))
  | .ne, _ => .bool (!(arg 0).looseEq (arg 1))
  | .lt, _ => .bool ((arg 0).number < (arg 1).number)
  | .lte, _ => .bool ((arg 0).number ≤ (arg 1).number)
  | .gt, _ => .bool ((arg 1).number < (arg 0).number)
  | .gte, _ => .bool ((arg 1).number ≤ (arg 0).number)
  | .isIn, _ => .bool ((arg 1).holds (arg 0))
  | .overlap, _ => .bool (Fact.overlaps (arg 0).items (arg 1).items)
  | .intersect, _ => .list (Fact.intersect (arg 0).items (arg 1).items)
  | .len, _ => .num (Float.ofNat (arg 0).size)
  | .add, _ => .num (sumOf (args.map Fact.number))
  | .sub, _ => .num (differenceOf (args.map Fact.number))
  | .mul, _ => .num (productOf (args.map Fact.number))
  | .div, _ => .num (quotientOf (args.map Fact.number))
  | .neg, _ => .num (-(arg 0).number)
  | .abs, _ => .num (arg 0).number.abs
  | .min, _ => .num (leastOf (flatNumbers args))
  | .max, _ => .num (greatestOf (flatNumbers args))
  | .sum, _ => .num (sumOf (flatNumbers args))
  | .clamp, _ => .num (clampTo (arg 0).number (arg 1).number (arg 2).number)

end Op
end Reckoner
