import Reckoner.Decimal.Numeral
import Reckoner.Json.Basic

/-!
# Tokens of a JSON text

A text is cut into tokens from left to right.  A token may be at fault in two
ways: `read` is the fault met by a reader that wants its value, and `skip` the
one met by a reader that only passes over it.  A lone surrogate in a string, for
instance, has no value but can be passed over.  The token list ends after a token
that cannot be passed over.
-/

namespace Reckoner
namespace Json

inductive Fault where
  | wrong
  | cut
  deriving DecidableEq, Inhabited

/-- The fault of a text that should go on: it is cut if nothing is left. -/
def Fault.before (rest : List Char) : Fault :=
  if rest.isEmpty then .cut else .wrong

inductive Token where
  | openArray
  | closeArray
  | openObject
  | closeObject
  | comma
  | colon
  | null (skip : Option Fault)
  | bool (value : Bool) (skip : Option Fault)
  | num (read : Except Fault Number) (skip : Option Fault)
  | str (read : Except Fault String) (skip : Option Fault)
  | junk

namespace Token

def isLast : Token -> Bool
  | .null skip => skip.isSome
  | .bool _ skip => skip.isSome
  | .num _ skip => skip.isSome
  | .str _ skip => skip.isSome
  | .junk => true
  | _ => false

/-!
# Words
-/

def word : (letters : List Char) -> (text : List Char) -> Option Fault × List Char
  | [], text => (none, text)
  | _ :: _, [] => (some .cut, [])
  | letter :: letters, c :: text =>
      if c = letter then word letters text else (some .wrong, text)

theorem length_word_le (letters text : List Char) :
    (word letters text).2.length ≤ text.length := by
  fun_induction word letters text with
  | case1 => exact Nat.le_refl _
  | case2 => exact Nat.le_refl _
  | case3 _ _ _ ih => exact Nat.le_succ_of_le ih
  | case4 => exact Nat.le_succ _

/-!
# Numbers

An integer part without superfluous zeros, then maybe a point with digits, then
maybe an exponent with digits.
-/

def digits (text : List Char) : List Char × List Char :=
  (text.takeWhile Decimal.isDigit, text.dropWhile Decimal.isDigit)

theorem length_digits_le (text : List Char) : (digits text).2.length ≤ text.length :=
  (List.dropWhile_sublist Decimal.isDigit).length_le

/-- A part of a number that starts with a mark of its own: the digits after the mark, the fault if
there are none, and the text after them. -/
structure Part where
  chars : List Char
  fault : Option Fault
  rest : List Char

namespace Part

def absent (text : List Char) : Part :=
  { chars := [], fault := none, rest := text }

def marked (text : List Char) : Part :=
  let run := digits text
  { chars := run.1
    fault := if run.1.isEmpty then some (.before run.2) else none
    rest := run.2 }

theorem length_marked_le (text : List Char) : (marked text).rest.length ≤ text.length :=
  length_digits_le text

end Part

def fraction (text : List Char) : Part :=
  match text with
  | '.' :: after => .marked after
  | _ => .absent text

theorem length_fraction_le (text : List Char) : (fraction text).rest.length ≤ text.length := by
  unfold fraction
  split
  · next after => exact Nat.le_succ_of_le (Part.length_marked_le after)
  · exact Nat.le_refl _

def power (text : List Char) : Bool × Part :=
  match text with
  | c :: after =>
      if c = 'e' || c = 'E' then
        let split := Decimal.splitSign after
        (split.1, .marked split.2)
      else
        (false, .absent text)
  | [] => (false, .absent [])

theorem length_splitSign_le (text : List Char) :
    (Decimal.splitSign text).2.length ≤ text.length := by
  unfold Decimal.splitSign
  split <;> simp

theorem length_power_le (text : List Char) : (power text).2.rest.length ≤ text.length := by
  unfold power
  split
  · next c after =>
      have unsigned := length_splitSign_le after
      have shorter := Part.length_marked_le (Decimal.splitSign after).2
      split
      · simp only [List.length_cons]
        omega
      · exact Nat.le_refl _
  · exact Nat.le_refl _

/-- The number spelled by its parts. Without a point and an exponent it is an integer, unless it
is negative zero or out of range; a double must be finite. -/
def spell (negative : Bool) (whole : List Char) (afterPoint : Option (List Char))
    (exponent : Option Int) : Except Fault Number :=
  let size := Decimal.digitsValue 0 whole
  let value : Int := if negative then -size else size
  if afterPoint.isNone && exponent.isNone && !(negative && size == 0) && Number.inRange value then
    .ok (.int value)
  else
    let numeral : Decimal.Numeral :=
      { negative, whole, fraction := afterPoint.getD [], exponent := exponent.getD 0 }
    let x := numeral.toFloat
    if x.isFinite then .ok (.double x) else .error .wrong

def number (negative : Bool) (whole after : List Char) : Token × List Char :=
  let superfluous := whole.head? == some '0' && 1 < whole.length
  if whole.isEmpty then
    (.num (.error (.before after)) (some .wrong), after)
  else if superfluous then
    (.num (.error .wrong) (some .wrong), after)
  else
    let point := fraction after
    match point.fault with
    | some fault => (.num (.error fault) (some .wrong), point.rest)
    | none =>
        let (below, exponent) := power point.rest
        match exponent.fault with
        | some fault => (.num (.error fault) (some .wrong), exponent.rest)
        | none =>
            let size : Int := Decimal.digitsValue 0 exponent.chars
            let value :=
              spell negative whole
                (if point.chars.isEmpty then none else some point.chars)
                (if exponent.chars.isEmpty then none else some (if below then -size else size))
            (.num value none, exponent.rest)

theorem length_number_le (negative : Bool) (whole after : List Char) :
    (number negative whole after).2.length ≤ after.length := by
  have h₁ := length_fraction_le after
  have h₂ := length_power_le (fraction after).rest
  unfold number
  dsimp only
  split
  · exact Nat.le_refl _
  · split
    · exact Nat.le_refl _
    · split
      · exact h₁
      · split <;> dsimp only <;> omega

/-!
# Strings

A string is first cut into units: characters, and the code units that `\u`
escapes name.  Surrogate pairs are put together when the string is read.
-/

inductive Piece where
  | char (c : Char)
  | code (unit : Nat)
  deriving DecidableEq

/-- The pieces of a string after its opening quote, the fault that cuts it short if there is one,
and the text after the closing quote. -/
structure Pieces where
  pieces : List Piece
  fault : Option Fault
  rest : List Char

def Pieces.push (piece : Piece) (p : Pieces) : Pieces :=
  { p with pieces := piece :: p.pieces }

def escape? : Char -> Option Char
  | '"' => some '"'
  | '\\' => some '\\'
  | '/' => some '/'
  | 'b' => some '\x08'
  | 'f' => some '\x0c'
  | 'n' => some '\n'
  | 'r' => some '\r'
  | 't' => some '\t'
  | _ => none

/-- The fault of a `\u` escape whose four digits are not all there: fewer than four bytes of text
are left, or one of them is no digit. -/
def shortEscape (rest : List Char) : Fault :=
  if (String.ofList rest).utf8ByteSize < 4 then .cut else .wrong

def pieces (text : List Char) : Pieces :=
  match text with
  | [] => { pieces := [], fault := some .cut, rest := [] }
  | '"' :: rest => { pieces := [], fault := none, rest := rest }
  | '\\' :: [] => { pieces := [], fault := some .cut, rest := [] }
  | '\\' :: 'u' :: a :: b :: c :: d :: rest =>
      match Decimal.hexRunValue? [a, b, c, d] with
      | some unit => (pieces rest).push (.code unit)
      | none => { pieces := [], fault := some .wrong, rest := rest }
  | '\\' :: 'u' :: rest => { pieces := [], fault := some (shortEscape rest), rest := rest }
  | '\\' :: letter :: rest =>
      match escape? letter with
      | some c => (pieces rest).push (.char c)
      | none => { pieces := [], fault := some .wrong, rest := rest }
  | c :: rest =>
      if c.toNat < 0x20 then
        { pieces := [], fault := some .wrong, rest := rest }
      else
        (pieces rest).push (.char c)

theorem length_pieces_le (text : List Char) : (pieces text).rest.length ≤ text.length := by
  fun_induction pieces text <;> simp_all [Pieces.push] <;> omega

/-- The characters that pieces spell. A high surrogate must be followed by a low one, and a low one
must follow a high one; the fault that cuts the string short comes after all pieces. -/
def join (fault : Option Fault) : List Piece -> Except Fault (List Char)
  | [] =>
      match fault with
      | some fault => .error fault
      | none => .ok []
  | .char c :: rest => (join fault rest).map (c :: ·)
  | .code unit :: rest =>
      if 0xdc00 ≤ unit && unit < 0xe000 then
        .error .wrong
      else if 0xd800 ≤ unit && unit < 0xdc00 then
        match rest with
        | .code low :: rest =>
            if 0xdc00 ≤ low && low < 0xe000 then
              let point := 0x10000 + (unit - 0xd800) * 0x400 + (low - 0xdc00)
              (join fault rest).map (Char.ofNat point :: ·)
            else
              .error .wrong
        | .char _ :: _ => .error .wrong
        | [] => .error (fault.getD .wrong)
      else
        (join fault rest).map (Char.ofNat unit :: ·)

def string (text : List Char) : Token × List Char :=
  let p := pieces text
  (.str ((join p.fault p.pieces).map String.ofList) p.fault, p.rest)

/-!
# The tokens of a text
-/

def isSpace (c : Char) : Bool :=
  c = ' ' || c = '\n' || c = '\t' || c = '\r'

def ofChar (c : Char) (rest : List Char) : Token × List Char :=
  match c with
  | '[' => (.openArray, rest)
  | ']' => (.closeArray, rest)
  | '\x7b' => (.openObject, rest)
  | '\x7d' => (.closeObject, rest)
  | ',' => (.comma, rest)
  | ':' => (.colon, rest)
  | 'n' => let word := word "ull".toList rest; (.null word.1, word.2)
  | 't' => let word := word "rue".toList rest; (.bool true word.1, word.2)
  | 'f' => let word := word "alse".toList rest; (.bool false word.1, word.2)
  | '"' => string rest
  | '-' => number true (digits rest).1 (digits rest).2
  | c =>
      if Decimal.isDigit c then
        number false (c :: (digits rest).1) (digits rest).2
      else
        (.junk, rest)

theorem length_ofChar_le (c : Char) (rest : List Char) :
    (ofChar c rest).2.length ≤ rest.length := by
  have digits := length_digits_le rest
  unfold ofChar
  split
  case h_7 | h_8 | h_9 => exact length_word_le _ rest
  case h_10 => exact length_pieces_le rest
  case h_11 => exact Nat.le_trans (length_number_le _ _ _) digits
  case h_12 =>
    split
    · exact Nat.le_trans (length_number_le _ _ _) digits
    · exact Nat.le_refl _
  all_goals exact Nat.le_refl _

/-- The tokens of a text, up to the first one that no reader can pass over. -/
def tokens (text : List Char) : List Token :=
  match _after : text.dropWhile isSpace with
  | [] => []
  | c :: rest =>
      let token := ofChar c rest
      if token.1.isLast then [token.1] else token.1 :: tokens token.2
termination_by text.length
decreasing_by
  have kept := (List.dropWhile_sublist isSpace (l := text)).length_le
  have shorter := length_ofChar_le c rest
  rw [_after, List.length_cons] at kept
  omega

end Token
end Json
end Reckoner
