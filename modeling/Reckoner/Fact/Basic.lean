import Reckoner.Decimal.Numeral
import Reckoner.Json.Basic
import Reckoner.Text.Blank

/-!
# Facts

A fact is what a path leads to: a JSON value whose numbers are doubles, or
nothing at all.  Expressions compute with facts.
-/

namespace Reckoner

inductive Fact where
  | absent
  | null
  | bool (value : Bool)
  | num (value : Float)
  | str (value : String)
  | list (items : List Fact)
  | map (entries : List (String × Fact))
  deriving Inhabited

/-!
# Whole numbers among doubles
-/

namespace Number

/-- The greatest size below which every whole number is a double of its own. -/
def maxSafe : Nat := 0x1fffffffffffff

open Float.Model in
def whole? (x : Float) : Option Int :=
  match x.toModel.unpack with
  | .zero _ => some 0
  | .finite sign m q _ =>
      let size : Option Nat :=
        if 0 ≤ q then
          some (m * Nat.pow 2 q.toNat)
        else if m % Nat.pow 2 (-q).toNat = 0 then
          some (m / Nat.pow 2 (-q).toNat)
        else
          none
      size.map fun n => if sign == .negative then -(n : Int) else n
  | _ => none

end Number

/-- A double as the plainest value: an integer if it is a safe whole number, and null if it is not
a number. -/
def Json.ofNumber (x : Float) : Json :=
  match Number.whole? x with
  | some n => if n.natAbs ≤ Number.maxSafe then .num (.int n) else .num (.double x)
  | none => Json.ofFloat x

namespace Fact

def nan : Float := 0.0 / 0.0

/-!
# Reading a fact as something else
-/

def isAbsent : Fact -> Bool
  | .absent => true
  | _ => false

/-- Whether a fact counts as true: nothing, null, zero, a number that is none, and an empty text or
list do not; a map always does. -/
def truthy : Fact -> Bool
  | .absent => false
  | .null => false
  | .bool value => value
  | .num value => value != 0.0 && !value.isNaN
  | .str value => !value.isEmpty
  | .list items => !items.isEmpty
  | .map _ => true

/-- The number that a fact stands for. A text stands for the number that it spells between blank
characters. -/
def number : Fact -> Float
  | .num value => value
  | .bool true => 1.0
  | .bool false => 0.0
  | .str value => (Decimal.readFloat? (Text.trim value.toList)).getD nan
  | _ => nan

def list? : Fact -> Option (List Fact)
  | .list items => some items
  | _ => none

def str? : Fact -> Option String
  | .str value => some value
  | _ => none

/-!
# Equality
-/

mutual

/-- Equality as expressions see it: an absent fact equals null, and a number that is none equals
nothing. Different kinds are never equal. -/
def looseEq : Fact -> Fact -> Bool
  | .absent, .absent | .absent, .null | .null, .absent | .null, .null => true
  | .bool a, .bool b => a == b
  | .num a, .num b => a == b
  | .str a, .str b => a == b
  | .list as, .list bs => looseEqItems as bs
  | .map as, .map bs => looseEqEntries as bs
  | _, _ => false

def looseEqItems : List Fact -> List Fact -> Bool
  | [], [] => true
  | a :: as, b :: bs => looseEq a b && looseEqItems as bs
  | _, _ => false

def looseEqEntries : List (String × Fact) -> List (String × Fact) -> Bool
  | [], [] => true
  | (k, a) :: as, (l, b) :: bs => k == l && looseEq a b && looseEqEntries as bs
  | _, _ => false

end

mutual

def strictEq : Fact -> Fact -> Bool
  | .absent, .absent => true
  | .null, .null => true
  | .bool a, .bool b => a == b
  | .num a, .num b => a == b
  | .str a, .str b => a == b
  | .list as, .list bs => strictEqItems as bs
  | .map as, .map bs => strictEqEntries as bs
  | _, _ => false

def strictEqItems : List Fact -> List Fact -> Bool
  | [], [] => true
  | a :: as, b :: bs => strictEq a b && strictEqItems as bs
  | _, _ => false

def strictEqEntries : List (String × Fact) -> List (String × Fact) -> Bool
  | [], [] => true
  | (k, a) :: as, (l, b) :: bs => k == l && strictEq a b && strictEqEntries as bs
  | _, _ => false

end

/-!
# Facts and JSON values
-/

mutual

def ofJson : Json -> Fact
  | .null => .null
  | .bool value => .bool value
  | .num value => .num value.toFloat
  | .str value => .str value
  | .arr items => .list (ofItems items)
  | .obj entries => .map (ofEntries entries)

def ofItems : List Json -> List Fact
  | [] => []
  | item :: rest => ofJson item :: ofItems rest

def ofEntries : List (String × Json) -> List (String × Fact)
  | [] => []
  | (name, value) :: rest => (name, ofJson value) :: ofEntries rest

end

mutual

def toJson : Fact -> Json
  | .absent => .null
  | .null => .null
  | .bool value => .bool value
  | .num value => .ofNumber value
  | .str value => .str value
  | .list items => .arr (toItems items)
  | .map entries => .obj (toEntries entries)

def toItems : List Fact -> List Json
  | [] => []
  | item :: rest => toJson item :: toItems rest

def toEntries : List (String × Fact) -> List (String × Json)
  | [] => []
  | (name, value) :: rest => (name, toJson value) :: toEntries rest

end

end Fact
end Reckoner
