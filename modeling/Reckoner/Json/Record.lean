import Reckoner.Json.Decoder

/-!
# Records

A record is described once, by the table of its fields; from the table come the
decoder and the encoder.  A record may be given as an object, or as an array of its
fields in the order of the table.  A field that is not required may be missing, and
then keeps the value that it has in the blank record.
-/

namespace Reckoner
namespace Json

/-- A field of records of a type. `read` gives the change that a value of the field makes to a
record, and `write` is the value that a record shows for the field, if it shows it. -/
structure Field (ρ : Type) where
  name : String
  required : Bool
  read : Decoder (ρ -> ρ)
  write : ρ -> Option Json

namespace Field

variable {ρ α : Type}

def shown (name : String) (required : Bool) (decoder : Decoder α) (encode : α -> Json)
    (get : ρ -> α) (set : α -> ρ -> ρ) : Field ρ where
  name := name
  required := required
  read := fun reading draft => (decoder reading draft).map set
  write := fun record => some (encode (get record))

def mandatory (name : String) (decoder : Decoder α) (encode : α -> Json)
    (get : ρ -> α) (set : α -> ρ -> ρ) : Field ρ :=
  shown name true decoder encode get set

def defaulted (name : String) (decoder : Decoder α) (encode : α -> Json)
    (get : ρ -> α) (set : α -> ρ -> ρ) : Field ρ :=
  shown name false decoder encode get set

def optional (name : String) (decoder : Decoder α) (encode : α -> Json)
    (get : ρ -> Option α) (set : Option α -> ρ -> ρ) : Field ρ where
  name := name
  required := false
  read := fun reading draft => (Decoder.optional decoder reading draft).map set
  write := fun record => (get record).map encode

/-- A list that is empty unless it is given, and is shown only if it is not empty. -/
def listing (name : String) (decoder : Decoder α) (encode : α -> Json)
    (get : ρ -> List α) (set : List α -> ρ -> ρ) : Field ρ where
  name := name
  required := false
  read := fun reading draft => (Decoder.list decoder reading draft).map set
  write := fun record =>
    if (get record).isEmpty then none else some (.arr ((get record).map encode))

end Field

structure Record (ρ : Type) where
  name : String
  blank : ρ
  fields : List (Field ρ)

namespace Record

variable {ρ : Type}

def encode (r : Record ρ) (record : ρ) : Json :=
  .obj (r.fields.filterMap fun field => (field.write record).map fun value => (field.name, value))

def kind (r : Record ρ) : String :=
  "struct " ++ r.name

def readEntries (r : Record ρ) (reading : Reading) :
    List (Except Fault String × Draft) -> (seen : List String) -> ρ ->
      Except DecodeError (List String × ρ)
  | [], seen, record => .ok (seen, record)
  | (name, draft) :: rest, seen, record => do
      let name ← Decoder.orFault name
      match r.fields.find? (·.name = name) with
      | none =>
          Decoder.ended draft.skipFault?
          readEntries r reading rest seen record
      | some field =>
          if seen.contains name then
            throw (.data (.repeatedField name))
          let change ← field.read reading draft
          readEntries r reading rest (name :: seen) (change record)

/-- Reads items one by one, each for the next field. What is wrong with an item that no field is
left for depends on the reading: in a text the closing bracket is missing. -/
def readItems (r : Record ρ) (reading : Reading) (count : Nat) (ending : Option Fault) :
    (fields : List (Field ρ)) -> (items : List Draft) -> (index : Nat) -> ρ ->
      Except DecodeError ρ
  | [], [], _, record => do
      Decoder.ended ending
      return record
  | [], _ :: _, _, _ =>
      match reading with
      | .value => throw (.data (.tooMany count))
      | .text _ => throw (.text .wrong)
  | field :: fields, [], index, record => do
      Decoder.ended ending
      if field.required then
        throw (.data (.tooFew index (r.kind ++ " with " ++ r.fields.length.repr ++ " elements")))
      readItems r reading count ending fields [] (index + 1) record
  | field :: fields, item :: items, index, record => do
      let change ← field.read reading item
      readItems r reading count ending fields items (index + 1) (change record)

def decoder (r : Record ρ) : Decoder ρ := fun reading draft =>
  match draft with
  | .arr items ending => do
      readItems r (← reading.enter) items.length ending r.fields items 0 r.blank
  | .obj entries ending => do
      let (seen, record) ← r.readEntries (← reading.enter) entries [] r.blank
      Decoder.ended ending
      match r.fields.find? fun field => field.required && !seen.contains field.name with
      | some field => throw (.data (.missingField field.name))
      | none => return record
  | other => Decoder.reject r.kind other

end Record
end Json
end Reckoner
