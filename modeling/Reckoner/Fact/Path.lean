import Reckoner.Decimal.Digits
import Reckoner.Fact.Basic

/-!
# Paths

A path is a list of segments with points between them.  At an object a segment is
the name of an entry, and at an array it is the index of an item.  The empty path
leads to the whole value.
-/

namespace Reckoner
namespace Path

def split : List Char -> List (List Char)
  | [] => [[]]
  | c :: rest =>
      if c = '.' then
        [] :: split rest
      else
        match split rest with
        | [] => [[c]]
        | segment :: more => (c :: segment) :: more

def segments (path : String) : List String :=
  (split path.toList).map String.ofList

/-- An index: digits, with a plus sign before them or not, that fit a word of 64 bits. -/
def index? (segment : String) : Option Nat :=
  let digits :=
    match segment.toList with
    | '+' :: digits => digits
    | digits => digits
  if digits.isEmpty || !digits.all Decimal.isDigit then
    none
  else
    let value := Decimal.digitsValue 0 digits
    if value < 0x10000000000000000 then some value else none

def step? (segment : String) : Json -> Option Json
  | .obj entries => Table.get? entries segment
  | .arr items => (index? segment).bind fun i => items[i]?
  | _ => none

def walk? : List String -> Json -> Option Json
  | [], value => some value
  | segment :: rest, value => (step? segment value).bind (walk? rest)

theorem walk?_append (xs ys : List String) (value : Json) :
    walk? (xs ++ ys) value = (walk? xs value).bind (walk? ys) := by
  induction xs generalizing value with
  | nil => rfl
  | cons x xs ih =>
      simp only [List.cons_append, walk?, Option.bind_assoc]
      exact congrArg _ (funext ih)

end Path

/-- The fact to which a path leads, which is absent if some step fails. -/
def Json.lookup (facts : Json) (path : String) : Fact :=
  if path.isEmpty then
    Fact.ofJson facts
  else
    match Path.walk? (Path.segments path) facts with
    | some value => Fact.ofJson value
    | none => .absent

end Reckoner
