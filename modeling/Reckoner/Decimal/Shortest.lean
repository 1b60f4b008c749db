/-!
# Shortest decimals

The decimal with the fewest digits among those that are nearer to a given binary
number than to its neighbours; among decimals of that length, the nearest one.

A positive binary number is `m * 2 ^ q` with `m < 2 ^ 53`.  The decimals that read
back to it fill the interval that ends half-way to its neighbours; the ends
belong to it when `m` is even.  The neighbour below is only half as far away when
`m` is the least significand of its power of two.  Grids of powers of ten are
tried from coarse to fine, and on each grid the two points around the number: if
any point of a grid lies in the interval, one of these two does.
-/

namespace Reckoner
namespace Decimal

/-- The interval of numbers that round to a binary number, as numerators over one
denominator. -/
structure Interval where
  low : Nat
  middle : Nat
  high : Nat
  denominator : Nat
  closed : Bool
  deriving DecidableEq

namespace Interval

def minExponent : Int := -1074

def ofBinary (m : Nat) (q : Int) : Interval :=
  let up := Nat.pow 2 q.toNat
  let below := if m = 0x10000000000000 ∧ minExponent < q then 1 else 2
  { low := (4 * m - below) * up
    middle := 4 * m * up
    high := (4 * m + 2) * up
    denominator := 4 * Nat.pow 2 (-q).toNat
    closed := m % 2 = 0 }

def scaleDown (i : Interval) (g : Int) : Interval :=
  let up := Nat.pow 10 (-g).toNat
  { i with
    low := i.low * up
    middle := i.middle * up
    high := i.high * up
    denominator := i.denominator * Nat.pow 10 g.toNat }

def holds (i : Interval) (n : Nat) : Bool :=
  let point := n * i.denominator
  if i.closed then
    i.low ≤ point && point ≤ i.high
  else
    i.low < point && point < i.high

/-- The integer of the interval next to its middle; of two at the same distance, the even one. -/
def nearest? (i : Interval) : Option Nat :=
  let below := i.middle / i.denominator
  let rest := i.middle % i.denominator
  match i.holds below, i.holds (below + 1) with
  | true, true =>
      if 2 * rest < i.denominator then
        some below
      else if 2 * rest = i.denominator then
        some (if below % 2 = 0 then below else below + 1)
      else
        some (below + 1)
  | true, false => some below
  | false, true => some (below + 1)
  | false, false => none

/-- The first point found on the grids `10 ^ g`, `10 ^ (g - 1)`, …, with its grid. -/
def search (i : Interval) : (grids : Nat) -> (g : Int) -> Nat × Int
  | 0, g => ((i.scaleDown g).middle / (i.scaleDown g).denominator, g)
  | grids + 1, g =>
      match (i.scaleDown g).nearest? with
      | some n => (n, g)
      | none => search i grids (g - 1)

def ceiling (i : Interval) : Int :=
  if i.denominator ≤ i.middle then
    (Nat.toDigits 10 (i.middle / i.denominator)).length
  else
    1 - ((Nat.toDigits 10 (i.denominator / i.middle)).length : Int)

end Interval

def stripZeros : (zeros : Nat) -> (n : Nat) -> (g : Int) -> Nat × Int
  | 0, n, g => (n, g)
  | zeros + 1, n, g =>
      if n % 10 = 0 then stripZeros zeros (n / 10) (g + 1) else (n, g)

/-- The coefficient and the exponent of ten of the shortest decimal for `m * 2 ^ q`.  A double
is known by seventeen digits, so the search ends on the grid of the seventeenth. -/
def shortest (m : Nat) (q : Int) : Nat × Int :=
  let interval := Interval.ofBinary m q
  let (n, g) := interval.search 19 interval.ceiling
  stripZeros 20 n g

example : shortest (2 ^ 52) (-52) = (1, 0) := by decide +kernel
example : shortest 1 (-1074) = (5, -324) := by decide +kernel
example : shortest 7205759403792794 (-56) = (1, -1) := by decide +kernel

end Decimal
end Reckoner
