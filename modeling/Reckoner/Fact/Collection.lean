import Reckoner.Fact.Basic

/-!
# Facts as collections

Membership, common members and size of facts that hold others.  Members are
compared loosely.
-/

namespace Reckoner
namespace Fact

/-- Whether one text occurs inside another. -/
def occursIn (needle : List Char) : List Char -> Bool
  | [] => needle.isEmpty
  | c :: rest => needle.isPrefixOf (c :: rest) || occursIn needle rest

def among (items : List Fact) (x : Fact) : Bool :=
  items.any fun item => item.looseEq x

/-- Whether a fact holds another: an item of a list, a part of a text, a name of a map. -/
def holds (collection x : Fact) : Bool :=
  match collection with
  | .list items => among items x
  | .str text => x.str?.any fun part => occursIn part.toList text.toList
  | .map entries => x.str?.any fun name => Table.contains entries name
  | _ => false

def items (x : Fact) : List Fact :=
  x.list?.getD []

def overlaps (as bs : List Fact) : Bool :=
  as.any fun a => bs.any fun b => a.looseEq b

/-- The members of the first list that equal one of the second, each only where it occurs first. -/
def intersect (as bs : List Fact) : List Fact :=
  as.foldl (fun kept a => if among bs a && !among kept a then kept ++ [a] else kept) []

theorem among_append (xs ys : List Fact) (x : Fact) :
    among (xs ++ ys) x = (among xs x || among ys x) :=
  List.any_append

theorem among_singleton (item x : Fact) : among [item] x = item.looseEq x :=
  Bool.or_false _

theorem intersect_concat (as bs : List Fact) (a : Fact) :
    intersect (as ++ [a]) bs =
      if among bs a && !among (intersect as bs) a then
        intersect as bs ++ [a]
      else
        intersect as bs := by
  unfold intersect
  rw [List.foldl_append]
  rfl

def size : Fact -> Nat
  | .str text => text.length
  | .list items => items.length
  | .map entries => entries.length
  | _ => 0

end Fact
end Reckoner
