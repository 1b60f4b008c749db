import Reckoner.Decimal.Shortest

/-!
# The text of a double

A double is written with its shortest digits.  `Notation` holds the decisions of
one written form: where positional notation ends, and the words for the values
that have no digits.
-/

namespace Reckoner
namespace Decimal

/-- The decisions of a written form. A number `0.d₁d₂… * 10 ^ p` is written with all its places
when `leastPoint < p` and `p ≤ mostPoint`, and with an exponent otherwise. -/
structure Style where
  leastPoint : Int
  mostPoint : Int
  infinity : String
  notANumber : String

namespace Style

def positional (digits : List Char) (p : Int) : List Char :=
  if p ≤ 0 then
    '0' :: '.' :: List.replicate (-p).toNat '0' ++ digits
  else
    let places := p.toNat
    let whole := digits.take places ++ List.replicate (places - digits.length) '0'
    let fraction := digits.drop places
    whole ++ '.' :: (if fraction.isEmpty then ['0'] else fraction)

def scientific (digits : List Char) (p : Int) : List Char :=
  let power := p - 1
  let sign := if power < 0 then '-' else '+'
  let mantissa :=
    match digits with
    | [] => ['0']
    | [d] => [d]
    | d :: more => d :: '.' :: more
  mantissa ++ 'e' :: sign :: Nat.toDigits 10 power.natAbs

def magnitude (style : Style) (m : Nat) (q : Int) : List Char :=
  let (n, g) := shortest m q
  let digits := Nat.toDigits 10 n
  let p := g + digits.length
  if style.leastPoint < p && p ≤ style.mostPoint then
    positional digits p
  else
    scientific digits p

def signed (negative : Bool) (text : List Char) : String :=
  String.ofList (if negative then '-' :: text else text)

open Float.Model in
def render (style : Style) (x : Float) : String :=
  match x.toModel.unpack with
  | .notANumber => style.notANumber
  | .infinity sign => signed (sign == .negative) style.infinity.toList
  | .zero sign => signed (sign == .negative) ['0', '.', '0']
  | .finite sign m q _ => signed (sign == .negative) (style.magnitude m q)

end Style

/-- Sixteen places before the point and four zeros after it are written out. -/
def plain : Style where
  leastPoint := -5
  mostPoint := 16
  infinity := "inf"
  notANumber := "NaN"

end Decimal
end Reckoner
