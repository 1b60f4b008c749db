/-!
# Quantities

What a competition asks of its numbers.  Doubles are quantities, and so are the
numbers of exact arithmetic, in which the laws of a competition are stated.
-/

namespace Reckoner

universe u

class Quantity (α : Type u) where
  /-- The number `m / 10 ^ e`. -/
  decimal : (m e : Nat) -> α
  ofNat : Nat -> α
  add : α -> α -> α
  sub : α -> α -> α
  mul : α -> α -> α
  div : α -> α -> α
  pow : α -> α -> α
  lt : α -> α -> Bool
  isFinite : α -> Bool

namespace Quantity

variable {α : Type u} [Quantity α]

def zero : α := ofNat 0

def one : α := ofNat 1

def sum (xs : List α) : α :=
  xs.foldl add zero

def atLeast (low x : α) : α :=
  if lt x low then low else x

def clampUnit (x : α) : α :=
  if lt x zero then zero else if lt one x then one else x

instance : Quantity Float where
  decimal m e := Float.ofScientific m true e
  ofNat := Float.ofNat
  add := (· + ·)
  sub := (· - ·)
  mul := (· * ·)
  div := (· / ·)
  pow := Float.pow
  lt x y := x < y
  isFinite := Float.isFinite

end Quantity
end Reckoner
