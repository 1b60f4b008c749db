/-!
# Decimal digits

A run of digits and the number it stands for.
-/

namespace Reckoner
namespace Decimal

def isDigit (c : Char) : Bool :=
  '0' ≤ c && c ≤ '9'

def digitValue (c : Char) : Nat :=
  c.toNat - '0'.toNat

/-- The number that a run of digits stands for, continuing one already read. -/
def digitsValue (read : Nat) (digits : List Char) : Nat :=
  digits.foldl (fun value c => 10 * value + digitValue c) read

theorem digitsValue_append (read : Nat) (xs ys : List Char) :
    digitsValue read (xs ++ ys) = digitsValue (digitsValue read xs) ys := by
  simp [digitsValue]

def hexValue? (c : Char) : Option Nat :=
  if isDigit c then
    some (digitValue c)
  else if 'a' ≤ c && c ≤ 'f' then
    some (c.toNat - 'a'.toNat + 10)
  else if 'A' ≤ c && c ≤ 'F' then
    some (c.toNat - 'A'.toNat + 10)
  else
    none

def hexRunValue? (digits : List Char) : Option Nat :=
  digits.foldl
    (fun read c => do
      let value ← read
      let digit ← hexValue? c
      return 16 * value + digit)
    (some 0)

end Decimal
end Reckoner
