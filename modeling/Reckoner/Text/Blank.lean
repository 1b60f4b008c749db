/-!
# Blank characters

The characters with the Unicode property `White_Space`, and the removal of a run
of them from both ends of a text.
-/

namespace Reckoner
namespace Text

/-- The ranges of code points with the property, both ends included. -/
def blankRanges : List (Nat × Nat) :=
  [(0x09, 0x0d), (0x20, 0x20), (0x85, 0x85), (0xa0, 0xa0), (0x1680, 0x1680),
    (0x2000, 0x200a), (0x2028, 0x2029), (0x202f, 0x202f), (0x205f, 0x205f),
    (0x3000, 0x3000)]

def isBlank (c : Char) : Bool :=
  blankRanges.any fun range => range.1 ≤ c.toNat && c.toNat ≤ range.2

def trim (text : List Char) : List Char :=
  ((text.dropWhile isBlank).reverse.dropWhile isBlank).reverse

example : trim "\u3000 a b\x0b\n".toList = "a b".toList := by decide

end Text
end Reckoner
