import Reckoner.Table

/-!
# TOML documents

A document is a table of values and further tables.  Every table remembers how it
came to be, because that decides in which ways it may still be extended: a table
can be defined once, by a header, by dotted keys, or in line.
-/

namespace Reckoner
namespace Toml

inductive Origin where
  /-- by a header of its own -/
  | header
  /-- by the header of a table inside it -/
  | implied
  /-- by a dotted key -/
  | dotted
  deriving DecidableEq

/-- A value of a document. Of a moment, a date or a time or both, no more than its kind is kept. -/
inductive Value where
  | bool (value : Bool)
  | int (value : Int)
  | float (value : Float)
  | str (value : String)
  | moment
  | array (items : List Value)
  | inlined (entries : List (String × Value))
  | table (origin : Origin) (entries : List (String × Value))
  | rows (rows : List (List (String × Value)))

structure Open where
  origin : Origin
  entries : List (String × Value)

/-- Changes the table at the end of a path. Tables that are missing on the way come to be with an
origin, and of an array of tables the last row counts. What has been defined by a header cannot be
reached by dotted keys. -/
def extend (origin : Origin) (change : Open -> Option Open) :
    (path : List String) -> Open -> Option Open
  | [], table => change table
  | key :: path, table =>
      let put (value : Value) : Open :=
        { table with entries := Table.insert table.entries key value }
      match Table.get? table.entries key with
      | none =>
          (extend origin change path { origin, entries := [] }).map fun inner =>
            put (.table inner.origin inner.entries)
      | some (.table inner entries) =>
          if origin = .dotted ∧ inner = .header then
            none
          else
            (extend origin change path { origin := inner, entries }).map fun inner =>
              put (.table inner.origin inner.entries)
      | some (.rows rows) =>
          match rows.getLast? with
          | none => none
          | some last =>
              (extend origin change path { origin := .header, entries := last }).map fun inner =>
                put (.rows (rows.dropLast ++ [inner.entries]))
      | some _ => none

def splitLast : List String -> Option (List String × String)
  | [] => none
  | [key] => some ([], key)
  | key :: rest => (splitLast rest).map fun (path, last) => (key :: path, last)

/-- Defines a value under a key, which may be dotted, in an open table. -/
def define (key : List String) (value : Value) (table : Open) : Option Open := do
  let (path, last) ← splitLast key
  extend .dotted
    (fun inner =>
      if !path.isEmpty && inner.origin ≠ .dotted then
        none
      else if Table.contains inner.entries last then
        none
      else
        some { inner with entries := Table.insert inner.entries last value })
    path table

def openTable (key : List String) (root : Open) : Option Open := do
  let (path, last) ← splitLast key
  extend .implied
    (fun inner =>
      match Table.get? inner.entries last with
      | none => some { inner with entries := Table.insert inner.entries last (.table .header []) }
      | some (.table .implied entries) =>
          some { inner with entries := Table.insert inner.entries last (.table .header entries) }
      | some _ => none)
    path root

def openRow (key : List String) (root : Open) : Option Open := do
  let (path, last) ← splitLast key
  extend .implied
    (fun inner =>
      match Table.get? inner.entries last with
      | none => some { inner with entries := Table.insert inner.entries last (.rows [[]]) }
      | some (.rows rows) =>
          some { inner with entries := Table.insert inner.entries last (.rows (rows ++ [[]])) }
      | some _ => none)
    path root

inductive Line where
  | table (key : List String)
  | row (key : List String)
  | entry (key : List String) (value : Value)

/-- The document that lines build, the current table being the one at a path. -/
def build (current : List String) (root : Open) : List Line -> Option Open
  | [] => some root
  | .table key :: rest => do build key (← openTable key root) rest
  | .row key :: rest => do build key (← openRow key root) rest
  | .entry key value :: rest => do
      build current (← extend .implied (define key value) current root) rest

def inlineTable (entries : List (List String × Value)) : Option Value := do
  let table ← entries.foldlM
    (fun table entry => define entry.1 entry.2 table) { origin := .header, entries := [] }
  return .inlined table.entries

end Toml
end Reckoner
