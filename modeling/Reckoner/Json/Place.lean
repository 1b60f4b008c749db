import Reckoner.Decimal.Digits

/-!
# Places in documents

The reason that a value is refused for may end in the place that it speaks of, as
in ` at line 3 column 7`.  The place is then kept apart from the reason, so that a
message can be given with it or without it.  What such a text spells is found from
its end: digits, a word, digits, a word, and before them the reason.
-/

namespace Reckoner
namespace Json

structure Place where
  line : Nat
  column : Nat
  deriving DecidableEq

namespace Place

/-- A place as a message ends in it. Lines count from one, so line zero shows no place. -/
def text (place : Place) : String :=
  if place.line = 0 then
    ""
  else
    " at line " ++ place.line.repr ++ " column " ++ place.column.repr

def dropWord? (word : String) (text : List Char) : Option (List Char) :=
  if word.toList.isSuffixOf text then
    some (text.take (text.length - word.length))
  else
    none

def dropNumber? (text : List Char) : Option (List Char × Nat) :=
  let digits := (text.reverse.takeWhile Decimal.isDigit).reverse
  let value := Decimal.digitsValue 0 digits
  if digits.isEmpty || 0x10000000000000000 ≤ value then
    none
  else
    some (text.take (text.length - digits.length), value)

def split? (text : List Char) : Option (List Char × Place) := do
  let (before, column) ← dropNumber? text
  let before ← dropWord? " column " before
  let (before, line) ← dropNumber? before
  let before ← dropWord? " at line " before
  return (before, ⟨line, column⟩)

example : split? "too small at line 3 column 07".toList
    = some ("too small".toList, ⟨3, 7⟩) := by decide

example : split? "too small at line 3 column".toList = none := by decide

/-!
## What is kept
-/

theorem prefix_of_dropWord? {word : String} {text before : List Char}
    (h : dropWord? word text = some before) : before <+: text := by
  grind [dropWord?, List.take_prefix]

theorem prefix_of_dropNumber? {text before : List Char} {value : Nat}
    (h : dropNumber? text = some (before, value)) : before <+: text := by
  grind [dropNumber?, List.take_prefix]

/-- Only the end of a text is taken off. -/
theorem prefix_of_split? {text before : List Char} {place : Place}
    (h : split? text = some (before, place)) : before <+: text := by
  simp only [split?, Option.bind_eq_bind, Option.bind_eq_some_iff, Option.pure_def,
    Option.some.injEq, Prod.mk.injEq] at h
  obtain ⟨⟨_, _⟩, hColumn, _, hWord, ⟨_, _⟩, hLine, _, hAt, rfl, _⟩ := h
  exact (prefix_of_dropWord? hAt).trans ((prefix_of_dropNumber? hLine).trans
    ((prefix_of_dropWord? hWord).trans (prefix_of_dropNumber? hColumn)))

end Place
end Json
end Reckoner
