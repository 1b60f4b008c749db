import Reckoner.Decimal.Digits

/-!
# Decimal numerals

A numeral is a sign, the digits before and after the point, and a power of ten.
Its double is the one nearest to the number it stands for.
-/

namespace Reckoner
namespace Decimal

structure Numeral where
  negative : Bool
  whole : List Char
  fraction : List Char
  exponent : Int
  deriving DecidableEq

namespace Numeral

/-- The digits read as one integer, which the power `scale` of ten brings to size. -/
def coefficient (n : Numeral) : Nat :=
  digitsValue 0 (n.whole ++ n.fraction)

def scale (n : Numeral) : Int :=
  n.exponent - n.fraction.length

/-- The double nearest to the numeral; one that is too large gives an infinity. -/
def toFloat (n : Numeral) : Float :=
  let size :=
    if n.scale < 0 then
      Float.ofScientific n.coefficient true (-n.scale).toNat
    else
      Float.ofScientific n.coefficient false n.scale.toNat
  if n.negative then -size else size

def exponent? (text : List Char) : Option Int :=
  match text with
  | '-' :: digits => if run digits then some (-(digitsValue 0 digits : Int)) else none
  | '+' :: digits => if run digits then some (digitsValue 0 digits) else none
  | digits => if run digits then some (digitsValue 0 digits) else none
where
  run (digits : List Char) : Bool :=
    !digits.isEmpty && digits.all isDigit

/-- What follows the digits before the point, read as the rest of a numeral. -/
def afterWhole? (negative : Bool) (whole rest : List Char) : Option Numeral :=
  let (fraction, tail) :=
    match rest with
    | '.' :: digits => (digits.takeWhile isDigit, digits.dropWhile isDigit)
    | _ => ([], rest)
  if whole.isEmpty && fraction.isEmpty then
    none
  else
    match tail with
    | [] => some { negative, whole, fraction, exponent := 0 }
    | c :: power =>
        if c = 'e' || c = 'E' then
          (exponent? power).map fun exponent => { negative, whole, fraction, exponent }
        else
          none

end Numeral

def splitSign (text : List Char) : Bool × List Char :=
  match text with
  | '-' :: rest => (true, rest)
  | '+' :: rest => (false, rest)
  | _ => (false, text)

def sameLetters (xs ys : List Char) : Bool :=
  xs.map Char.toLower == ys.map Char.toLower

/-- Reads a number: a sign if there is one, then `inf`, `infinity` or `nan` in any case, or
digits with an optional point among them and an optional exponent. -/
def readFloat? (text : List Char) : Option Float :=
  let (negative, size) := splitSign text
  let infinity : Float := 1.0 / 0.0
  if sameLetters size "inf".toList || sameLetters size "infinity".toList then
    some (if negative then -infinity else infinity)
  else if sameLetters size "nan".toList then
    some (0.0 / 0.0)
  else
    (Numeral.afterWhole? negative (size.takeWhile isDigit) (size.dropWhile isDigit)).map
      Numeral.toFloat

end Decimal
end Reckoner
