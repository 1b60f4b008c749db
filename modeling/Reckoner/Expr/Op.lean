/-!
# Operators

The operators of expressions, their names, and which of their arguments they read.
-/

namespace Reckoner

inductive Op where
  | and
  | or
  | not
  | eq
  | ne
  | lt
  | lte
  | gt
  | gte
  | isIn
  | overlap
  | intersect
  | len
  | add
  | sub
  | mul
  | div
  | neg
  | abs
  | min
  | max
  | sum
  | clamp
  | cond
  deriving DecidableEq, Inhabited

namespace Op

def name : Op -> String
  | .and => "and"
  | .or => "or"
  | .not => "not"
  | .eq => "eq"
  | .ne => "ne"
  | .lt => "lt"
  | .lte => "lte"
  | .gt => "gt"
  | .gte => "gte"
  | .isIn => "in"
  | .overlap => "overlap"
  | .intersect => "intersect"
  | .len => "len"
  | .add => "add"
  | .sub => "sub"
  | .mul => "mul"
  | .div => "div"
  | .neg => "neg"
  | .abs => "abs"
  | .min => "min"
  | .max => "max"
  | .sum => "sum"
  | .clamp => "clamp"
  | .cond => "if"

def all : List Op :=
  [.and, .or, .not, .eq, .ne, .lt, .lte, .gt, .gte, .isIn, .overlap, .intersect, .len,
    .add, .sub, .mul, .div, .neg, .abs, .min, .max, .sum, .clamp, .cond]

def ofName? (name : String) : Option Op :=
  all.find? fun op => op.name = name

theorem mem_all (op : Op) : op ∈ all := by
  cases op <;> decide

theorem ofName?_name (op : Op) : ofName? op.name = some op := by
  cases op <;> decide

theorem name_of_ofName? {name : String} {op : Op} (found : ofName? name = some op) :
    op.name = name := by
  simpa using List.find?_some found

/-!
# Arguments read
-/

inductive Reads where
  /-- the first ones; those that are missing count as absent facts -/
  | first (count : Nat)
  /-- all of them -/
  | all
  /-- from left to right, as long as they leave the answer open -/
  | lazy
  deriving DecidableEq

def reads : Op -> Reads
  | .and | .or | .cond => .lazy
  | .add | .sub | .mul | .div | .min | .max | .sum => .all
  | .not | .len | .neg | .abs => .first 1
  | .eq | .ne | .lt | .lte | .gt | .gte | .isIn | .overlap | .intersect => .first 2
  | .clamp => .first 3

theorem ne_lazy_of_first {op : Op} {count : Nat} (h : op.reads = .first count) :
    op.reads ≠ .lazy := by
  rw [h]
  nofun

theorem ne_lazy_of_all {op : Op} (h : op.reads = .all) : op.reads ≠ .lazy := by
  rw [h]
  nofun

end Op
end Reckoner
