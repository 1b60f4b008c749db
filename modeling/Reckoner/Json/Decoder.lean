import Reckoner.Json.Draft
import Reckoner.Json.Place
import Reckoner.Json.Printer
import Reckoner.Text.Quoted

/-!
# Decoders

A decoder reads a value of some type from a draft.  It reports either a fault of
the text or a mismatch: a well-formed value that is not of the kind wanted.

Documents come in two ways.  A value that is known already has no faults.  A text
is read from left to right, and may open only so many arrays and objects inside
each other; `Reading.text room` is the reading of a text with room for `room` more.
-/

namespace Reckoner
namespace Json

inductive Found where
  | null
  | bool (value : Bool)
  | num (value : Number)
  | str (value : String)
  | sequence
  | map
  deriving DecidableEq

inductive Mismatch where
  | missingField (name : String)
  | repeatedField (name : String)
  | wrongKind (found : Found) (wanted : String)
  | outOfRange (value : Int) (wanted : String)
  | tooFew (count : Nat) (wanted : String)
  | tooMany (count : Nat)
  | refused (reason : String) (place? : Option Place)
  deriving DecidableEq

inductive DecodeError where
  | text (fault : Fault)
  | data (mismatch : Mismatch)
  deriving DecidableEq

namespace Found

def message : Found -> String
  | .null => "null"
  | .bool true => "boolean `true`"
  | .bool false => "boolean `false`"
  | .num (.int value) => "integer `" ++ String.ofList (integerChars value) ++ "`"
  | .num (.double value) => "floating point `" ++ Decimal.plain.render value ++ "`"
  | .str value => "string " ++ Text.quote value
  | .sequence => "sequence"
  | .map => "map"

end Found

namespace Mismatch

def ofReason (reason : String) : Mismatch :=
  match Place.split? reason.toList with
  | some (before, place) => .refused (String.ofList before) (some place)
  | none => .refused reason none

def message : Mismatch -> String
  | .missingField name => "missing field `" ++ name ++ "`"
  | .repeatedField name => "duplicate field `" ++ name ++ "`"
  | .wrongKind found wanted => "invalid type: " ++ found.message ++ ", expected " ++ wanted
  | .outOfRange value wanted =>
      "invalid value: integer `" ++ String.ofList (integerChars value) ++ "`, expected " ++ wanted
  | .tooFew count wanted => "invalid length " ++ count.repr ++ ", expected " ++ wanted
  | .tooMany count =>
      "invalid length " ++ count.repr ++ ", expected fewer elements in array"
  | .refused reason _ => reason

def located : Mismatch -> String
  | .refused reason (some place) => reason ++ place.text
  | other => other.message

end Mismatch

inductive Reading where
  | value
  | text (room : Nat)

namespace Reading

def enter : Reading -> Except DecodeError Reading
  | .value => .ok .value
  | .text 0 => .error (.text .wrong)
  | .text (room + 1) => .ok (.text room)

def limit : Nat := 127

end Reading

abbrev Decoder (α : Type) := Reading -> Draft -> Except DecodeError α

namespace Decoder

def found (draft : Draft) : Except DecodeError Found :=
  match draft with
  | .null => .ok .null
  | .bool value => .ok (.bool value)
  | .num (.ok value) => .ok (.num value)
  | .num (.error fault) => .error (.text fault)
  | .str (.ok value) => .ok (.str value)
  | .str (.error fault) => .error (.text fault)
  | .arr _ _ => .ok .sequence
  | .obj _ _ => .ok .map
  | .broken read _ => .error (.text read)

def reject {α : Type} (wanted : String) (draft : Draft) : Except DecodeError α := do
  throw (.data (.wrongKind (← found draft) wanted))

/-- Reports the fault that takes the place of the end of an array or object. -/
def ended (ending : Option Fault) : Except DecodeError Unit :=
  match ending with
  | some fault => .error (.text fault)
  | none => .ok ()

def orFault {α : Type} (read : Except Fault α) : Except DecodeError α :=
  read.mapError .text

/-!
# Single values
-/

def string : Decoder String := fun _ draft =>
  match draft with
  | .str read => orFault read
  | other => reject "a string" other

def float : Decoder Float := fun _ draft =>
  match draft with
  | .num read => (orFault read).map Number.toFloat
  | other => reject "f64" other

def natBelow (bound : Nat) (wanted : String) : Decoder Nat := fun _ draft =>
  match draft with
  | .num (.ok (.int value)) =>
      if 0 ≤ value ∧ value < bound then
        .ok value.toNat
      else
        .error (.data (.outOfRange value wanted))
  | other => reject wanted other

def size : Decoder Nat := natBelow 0x10000000000000000 "usize"

def byte : Decoder Nat := natBelow 256 "u8"

/-!
# Values inside values
-/

/-- Null stands for a value that is not given. -/
def optional {α : Type} (inner : Decoder α) : Decoder (Option α) := fun reading draft =>
  match draft with
  | .null => .ok none
  | other => (inner reading other).map some

def list {α : Type} (inner : Decoder α) : Decoder (List α) := fun reading draft =>
  match draft with
  | .arr items ending => do
      let inside ← reading.enter
      let values ← items.mapM (inner inside)
      ended ending
      return values
  | other => reject "a sequence" other

/-- Reads entries one by one; of those with the same name the last one counts. -/
def entries {α : Type} (inner : Decoder α) (reading : Reading) :
    List (Except Fault String × Draft) -> Table α -> Except DecodeError (Table α)
  | [], table => .ok table
  | (name, draft) :: rest, table => do
      let name ← orFault name
      let value ← inner reading draft
      entries inner reading rest (table.insert name value)

def table {α : Type} (inner : Decoder α) : Decoder (Table α) := fun reading draft =>
  match draft with
  | .obj fields ending => do
      let values ← entries inner (← reading.enter) fields []
      ended ending
      return values
  | other => reject "a map" other

def floats : Decoder (Table Float) :=
  table float

/-!
# Whole values
-/

mutual

def json : Decoder Json
  | _, .null => .ok .null
  | _, .bool value => .ok (.bool value)
  | _, .num read => (orFault read).map .num
  | _, .str read => (orFault read).map .str
  | reading, .arr items ending => do
      let values ← jsonItems (← reading.enter) items
      ended ending
      return .arr values
  | reading, .obj fields ending => do
      let values ← jsonEntries (← reading.enter) fields []
      ended ending
      return .obj values
  | _, .broken read _ => .error (.text read)

def jsonItems : Reading -> List Draft -> Except DecodeError (List Json)
  | _, [] => .ok []
  | reading, item :: rest => do
      let value ← json reading item
      return value :: (← jsonItems reading rest)

def jsonEntries :
    Reading -> List (Except Fault String × Draft) -> Table Json -> Except DecodeError (Table Json)
  | _, [], table => .ok table
  | reading, (name, draft) :: rest, table => do
      let name ← orFault name
      let value ← json reading draft
      jsonEntries reading rest (table.insert name value)

end

def via {α ε : Type} (make : Json -> Except ε α) (reason : ε -> String) : Decoder α :=
  fun reading draft => do
    let value ← json reading draft
    match make value with
    | .ok made => return made
    | .error refusal => throw (.data (.ofReason (reason refusal)))

/-!
# Documents
-/

def fromValue {α : Type} (decoder : Decoder α) (value : Json) : Except DecodeError α :=
  decoder .value (.ofJson value)

def fromText {α : Type} (decoder : Decoder α) (text : String) : Except DecodeError α := do
  let (root, trailing) := Draft.ofText text
  let value ← decoder (.text Reading.limit) root
  if trailing then
    throw (.text .wrong)
  return value

end Decoder

def parse (text : String) : Except DecodeError Json :=
  Decoder.fromText Decoder.json text

def parseDeep (text : String) : Except DecodeError Json := do
  let (root, trailing) := Draft.ofText text
  let value ← Decoder.json .value root
  if trailing then
    throw (.text .wrong)
  return value

end Json
end Reckoner
