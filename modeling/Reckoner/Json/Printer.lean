import Reckoner.Decimal.Notation
import Reckoner.Json.Basic

/-!
# The text of a JSON value

Values are written without spaces.  Entries are written in the order in which
they are listed, so the canonical text of a value is the text of its sorted form:
values that differ only in the order of entries have the same canonical text.

Every writer is given the text that comes after what it writes.
-/

namespace Reckoner
namespace Json

/-- A character inside a string: the quote, the backslash and the control characters of ASCII are
escaped, with one letter where there is one. -/
def escapeChar (c : Char) : List Char :=
  match c with
  | '"' => ['\\', '"']
  | '\\' => ['\\', '\\']
  | '\x08' => ['\\', 'b']
  | '\x0c' => ['\\', 'f']
  | '\n' => ['\\', 'n']
  | '\r' => ['\\', 'r']
  | '\t' => ['\\', 't']
  | c =>
      if c.toNat < 0x20 then
        ['\\', 'u', '0', '0', Nat.digitChar (c.toNat / 16), Nat.digitChar (c.toNat % 16)]
      else
        [c]

def quotedThen (text : String) (rest : List Char) : List Char :=
  '"' :: text.toList.flatMap escapeChar ++ '"' :: rest

def integerChars (value : Int) : List Char :=
  if value < 0 then
    '-' :: Nat.toDigits 10 value.natAbs
  else
    Nat.toDigits 10 value.natAbs

/-- The text of a number. A double has a point or an exponent, so it is no text of an integer. -/
def numberChars : Number -> List Char
  | .int value => integerChars value
  | .double value =>
      if value.isFinite then (Decimal.plain.render value).toList else "null".toList

mutual

def charsThen (rest : List Char) : Json -> List Char
  | .null => "null".toList ++ rest
  | .bool true => "true".toList ++ rest
  | .bool false => "false".toList ++ rest
  | .num value => numberChars value ++ rest
  | .str value => quotedThen value rest
  | .arr items => '[' :: itemsThen (']' :: rest) items
  | .obj entries => '\x7b' :: entriesThen ('\x7d' :: rest) entries

def itemsThen (rest : List Char) : List Json -> List Char
  | [] => rest
  | [item] => item.charsThen rest
  | item :: next :: more => item.charsThen (',' :: itemsThen rest (next :: more))

def entriesThen (rest : List Char) : List (String × Json) -> List Char
  | [] => rest
  | [(name, value)] => quotedThen name (':' :: value.charsThen rest)
  | (name, value) :: next :: more =>
      quotedThen name (':' :: value.charsThen (',' :: entriesThen rest (next :: more)))

end

def text (value : Json) : String :=
  String.ofList (value.charsThen [])

def canonicalText (value : Json) : String :=
  value.sorted.text

end Json
end Reckoner
