import Reckoner.Json.Basic
import Reckoner.Proofs.Table

/-!
# Documents

The values of documents: integers are in range, doubles are finite, and objects are
tables.  Sorting has nothing to do in them.
-/

namespace Reckoner

namespace Json

mutual

/-- Whether a value is one of a document. -/
def isWellFormed : Json -> Bool
  | .null => true
  | .bool _ => true
  | .num (.int value) => Number.inRange value
  | .num (.double value) => value.isFinite
  | .str _ => true
  | .arr items => wellFormedItems items
  | .obj entries => decide (Table.Sorted entries) && wellFormedEntries entries

def wellFormedItems : List Json -> Bool
  | [] => true
  | item :: rest => item.isWellFormed && wellFormedItems rest

def wellFormedEntries : List (String × Json) -> Bool
  | [] => true
  | (_, value) :: rest => value.isWellFormed && wellFormedEntries rest

end

structure Document where
  value : Json
  wellFormed : value.isWellFormed = true

theorem isWellFormed_of_mem {items : List Json} (h : wellFormedItems items = true) {item : Json}
    (hitem : item ∈ items) : item.isWellFormed = true := by
  induction items with
  | nil => cases hitem
  | cons head rest ih =>
      rcases Bool.and_eq_true_iff.mp h with ⟨hhead, hrest⟩
      rcases List.mem_cons.mp hitem with rfl | hmem
      · exact hhead
      · exact ih hrest hmem

theorem isWellFormed_of_mem_entries {entries : List (String × Json)}
    (h : wellFormedEntries entries = true) {entry : String × Json} (hentry : entry ∈ entries) :
    entry.2.isWellFormed = true := by
  induction entries with
  | nil => cases hentry
  | cons head rest ih =>
      rcases Bool.and_eq_true_iff.mp h with ⟨hhead, hrest⟩
      rcases List.mem_cons.mp hentry with rfl | hmem
      · exact hhead
      · exact ih hrest hmem

mutual

theorem sorted_of_isWellFormed : ∀ value : Json, value.isWellFormed = true -> value.sorted = value
  | .null, _ => rfl
  | .bool _, _ => rfl
  | .num _, _ => rfl
  | .str _, _ => rfl
  | .arr items, h => by
      show Json.arr (sortedItems items) = Json.arr items
      rw [sortedItems_of_wellFormedItems items h]
  | .obj entries, h => by
      rcases Bool.and_eq_true_iff.mp h with ⟨hsorted, hentries⟩
      show Json.obj (Table.ofList (sortedEntries entries)) = Json.obj entries
      rw [sortedEntries_of_wellFormedEntries entries hentries,
        Table.ofList_of_sorted (of_decide_eq_true hsorted)]

theorem sortedItems_of_wellFormedItems : ∀ items : List Json,
    wellFormedItems items = true -> sortedItems items = items
  | [], _ => rfl
  | item :: rest, h => by
      rcases Bool.and_eq_true_iff.mp h with ⟨hitem, hrest⟩
      show item.sorted :: sortedItems rest = item :: rest
      rw [sorted_of_isWellFormed item hitem, sortedItems_of_wellFormedItems rest hrest]

theorem sortedEntries_of_wellFormedEntries : ∀ entries : List (String × Json),
    wellFormedEntries entries = true -> sortedEntries entries = entries
  | [], _ => rfl
  | (name, value) :: rest, h => by
      rcases Bool.and_eq_true_iff.mp h with ⟨hvalue, hrest⟩
      show (name, value.sorted) :: sortedEntries rest = (name, value) :: rest
      rw [sorted_of_isWellFormed value hvalue, sortedEntries_of_wellFormedEntries rest hrest]

end

end Json
end Reckoner
