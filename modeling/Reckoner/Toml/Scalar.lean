import Reckoner.Decimal.Numeral
import Reckoner.Toml.Basic

/-!
# Words of TOML

Numbers, truth values and moments of time are written as words without blanks,
save that a date and a time may have a space between them.
-/

namespace Reckoner
namespace Toml

def splitAt (mark : Char) : List Char -> List (List Char)
  | [] => [[]]
  | c :: rest =>
      if c = mark then
        [] :: splitAt mark rest
      else
        match splitAt mark rest with
        | [] => [[c]]
        | part :: parts => (c :: part) :: parts

/-- The digits of a run in which single underscores may stand between digits. -/
def digitRun? (isDigit : Char -> Bool) (text : List Char) : Option (List Char) :=
  let groups := splitAt '_' text
  if groups.all fun group => !group.isEmpty && group.all isDigit then
    some groups.flatten
  else
    none

/-!
# Integers
-/

/-- An integer that fits a signed word of 64 bits. -/
def wordValue? (value : Int) : Option Value :=
  if -0x8000000000000000 ≤ value ∧ value < 0x8000000000000000 then some (.int value) else none

def hasBase (base : Nat) (c : Char) : Bool :=
  (Decimal.hexValue? c).any (· < base)

def based? (base : Nat) (text : List Char) : Option Value := do
  let digits ← digitRun? (hasBase base) text
  wordValue? (digits.foldl (fun n c => base * n + (Decimal.hexValue? c).getD 0) 0 : Nat)

/-- The digits of a decimal integer, which has no zeros before it. -/
def wholeDigits? (text : List Char) : Option (List Char) := do
  let digits ← digitRun? Decimal.isDigit text
  if digits.head? = some '0' && 1 < text.length then none else some digits

def integer? (word : List Char) : Option Value :=
  match word with
  | '0' :: 'x' :: digits => based? 16 digits
  | '0' :: 'o' :: digits => based? 8 digits
  | '0' :: 'b' :: digits => based? 2 digits
  | _ => do
      let (negative, size) := Decimal.splitSign word
      let value : Int := Decimal.digitsValue 0 (← wholeDigits? size)
      wordValue? (if negative then -value else value)

/-!
# Floats
-/

def decimal? (word : List Char) : Option Value := do
  let (negative, size) := Decimal.splitSign word
  let mantissa := size.takeWhile fun c => c ≠ 'e' && c ≠ 'E'
  let power := size.drop mantissa.length
  let exponent : Int ←
    match power with
    | [] => some 0
    | _ :: text =>
        let (below, digits) := Decimal.splitSign text
        (digitRun? Decimal.isDigit digits).map fun digits =>
          let n : Int := Decimal.digitsValue 0 digits
          if below then -n else n
  let (whole, fraction) ←
    match splitAt '.' mantissa with
    | [whole] => if power.isEmpty then none else some (whole, [])
    | [whole, fraction] => (digitRun? Decimal.isDigit fraction).map fun digits => (whole, digits)
    | _ => none
  let whole ← wholeDigits? whole
  let numeral : Decimal.Numeral := { negative, whole, fraction, exponent }
  let x := numeral.toFloat
  if x.isInf && !negative then none else some (.float x)

def float? (word : List Char) : Option Value :=
  let (negative, size) := Decimal.splitSign word
  if size = "inf".toList then
    some (.float (if negative then -1.0 / 0.0 else 1.0 / 0.0))
  else if size = "nan".toList then
    some (.float (0.0 / 0.0))
  else
    decimal? word

/-!
# Moments
-/

def field? (count low high : Nat) (text : List Char) : Option (Nat × List Char) :=
  let digits := text.take count
  let value := Decimal.digitsValue 0 digits
  if digits.length = count && digits.all Decimal.isDigit && low ≤ value && value ≤ high then
    some (value, text.drop count)
  else
    none

def expect? (mark : Char) : List Char -> Option (List Char)
  | [] => none
  | c :: rest => if c = mark then some rest else none

def daysOf (year month : Nat) : Nat :=
  let leap := (year % 4 = 0 && year % 100 ≠ 0) || year % 400 = 0
  if month = 2 then (if leap then 29 else 28)
  else if month = 4 || month = 6 || month = 9 || month = 11 then 30
  else 31

def date? (text : List Char) : Option (List Char) := do
  let (year, rest) ← field? 4 0 9999 text
  let (month, rest) ← field? 2 1 12 (← expect? '-' rest)
  let (_, rest) ← field? 2 1 (daysOf year month) (← expect? '-' rest)
  return rest

def time? (text : List Char) : Option (List Char) := do
  let (_, rest) ← field? 2 0 23 text
  let (_, rest) ← field? 2 0 59 (← expect? ':' rest)
  let (_, rest) ← field? 2 0 60 (← expect? ':' rest)
  match rest with
  | '.' :: digits =>
      let after := digits.dropWhile Decimal.isDigit
      if after.length = digits.length then none else some after
  | _ => some rest

def isOffset (text : List Char) : Bool :=
  match text with
  | [] => true
  | ['Z'] => true
  | ['z'] => true
  | sign :: rest =>
      (sign = '+' || sign = '-') &&
        (do
          let (_, rest) ← field? 2 0 23 rest
          let (_, rest) ← field? 2 0 59 (← expect? ':' rest)
          return rest.isEmpty).getD false

def isMoment (word : List Char) : Bool :=
  match date? word with
  | some [] => true
  | some (mark :: rest) =>
      (mark = 'T' || mark = 't' || mark = ' ') && ((time? rest).map isOffset).getD false
  | none => (time? word).any List.isEmpty

/-!
# Words
-/

def word? (word : List Char) : Option Value :=
  if word = "true".toList then
    some (.bool true)
  else if word = "false".toList then
    some (.bool false)
  else if isMoment word then
    some .moment
  else
    (integer? word).or (float? word)

end Toml
end Reckoner
