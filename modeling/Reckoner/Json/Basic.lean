import Reckoner.Table

/-!
# JSON values

Values of JSON documents.  A number remembers whether it is an integer or a
double, and an object lists its entries; the objects of a document that has been
read are tables.
-/

namespace Reckoner

/-- A number of a JSON document. An integer is at least `-2 ^ 63` and less than `2 ^ 64`;
everything else is a double, and so is negative zero. -/
inductive Number where
  | int (value : Int)
  | double (value : Float)
  deriving DecidableEq, Inhabited

namespace Number

def toFloat : Number -> Float
  | .int value => Float.ofInt value
  | .double value => value

def inRange (value : Int) : Bool :=
  -0x8000000000000000 ≤ value && value < 0x10000000000000000

end Number

inductive Json where
  | null
  | bool (value : Bool)
  | num (value : Number)
  | str (value : String)
  | arr (items : List Json)
  | obj (entries : List (String × Json))
  deriving Inhabited

namespace Json

/-- A double as a value: the values that are not numbers have no text and become null. -/
def ofFloat (x : Float) : Json :=
  if x.isFinite then .num (.double x) else .null

def ofNat (n : Nat) : Json :=
  .num (.int n)

def ofStrings (texts : List String) : Json :=
  .arr (texts.map .str)

def ofFloats (numbers : Table Float) : Json :=
  .obj (numbers.mapValues ofFloat)

def field? (name : String) : Json -> Option Json
  | .obj entries => Table.get? entries name
  | _ => none

def str? : Json -> Option String
  | .str value => some value
  | _ => none

/-!
# Sorting

Entries may be listed in any order, say that in which a record declares them.
Sorting makes tables of all objects inside a value.
-/

mutual

def sorted : Json -> Json
  | .arr items => .arr (sortedItems items)
  | .obj entries => .obj (Table.ofList (sortedEntries entries))
  | .null => .null
  | .bool value => .bool value
  | .num value => .num value
  | .str value => .str value

def sortedItems : List Json -> List Json
  | [] => []
  | item :: rest => item.sorted :: sortedItems rest

def sortedEntries : List (String × Json) -> List (String × Json)
  | [] => []
  | (name, value) :: rest => (name, value.sorted) :: sortedEntries rest

end

end Json
end Reckoner
