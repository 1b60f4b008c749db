import Reckoner.Expr.Operation
import Reckoner.Fact.Path
import Reckoner.Proofs.Decimal.Whole
import Reckoner.Proofs.Fact.Intersection

/-!
# Facts whose maps are tables

The facts of a document have tables for maps, and so has everything that operators
make of them: what an operator computes holds no maps but those of its arguments.
Such facts are written as values of documents again.
-/

namespace Reckoner

namespace Fact

mutual

def isWellFormed : Fact -> Bool
  | .absent => true
  | .null => true
  | .bool _ => true
  | .num _ => true
  | .str _ => true
  | .list items => wellFormedItems items
  | .map entries => decide (Table.Sorted entries) && wellFormedEntries entries

def wellFormedItems : List Fact -> Bool
  | [] => true
  | item :: rest => item.isWellFormed && wellFormedItems rest

def wellFormedEntries : List (String × Fact) -> Bool
  | [] => true
  | (_, value) :: rest => value.isWellFormed && wellFormedEntries rest

end

theorem wellFormedItems_iff {items : List Fact} :
    wellFormedItems items = true ↔ ∀ x ∈ items, x.isWellFormed = true := by
  induction items with
  | nil =>
      constructor
      · intro _ x hx
        cases hx
      · intro _
        rfl
  | cons item rest ih =>
      rw [List.forall_mem_cons, ← ih]
      exact Bool.and_eq_true_iff

/-!
# From values and back
-/

theorem keys_ofEntries (entries : List (String × Json)) :
    Table.keys (ofEntries entries) = Table.keys entries := by
  induction entries with
  | nil => rfl
  | cons entry rest ih => exact congrArg (entry.1 :: ·) ih

theorem keys_toEntries (entries : List (String × Fact)) :
    Table.keys (toEntries entries) = Table.keys entries := by
  induction entries with
  | nil => rfl
  | cons entry rest ih => exact congrArg (entry.1 :: ·) ih

mutual

theorem isWellFormed_ofJson : ∀ value : Json, value.isWellFormed = true ->
    (ofJson value).isWellFormed = true
  | .null, _ => rfl
  | .bool _, _ => rfl
  | .num _, _ => rfl
  | .str _, _ => rfl
  | .arr items, h => wellFormedItems_ofItems items h
  | .obj entries, h => by
      rcases Bool.and_eq_true_iff.mp h with ⟨hsorted, hentries⟩
      have htable : Table.Sorted (ofEntries entries) := by
        rw [Table.sorted_iff_keys, keys_ofEntries, ← Table.sorted_iff_keys]
        exact of_decide_eq_true hsorted
      exact Bool.and_eq_true_iff.mpr
        ⟨decide_eq_true htable, wellFormedEntries_ofEntries entries hentries⟩

theorem wellFormedItems_ofItems : ∀ items : List Json, Json.wellFormedItems items = true ->
    wellFormedItems (ofItems items) = true
  | [], _ => rfl
  | item :: rest, h => by
      rcases Bool.and_eq_true_iff.mp h with ⟨hitem, hrest⟩
      exact Bool.and_eq_true_iff.mpr
        ⟨isWellFormed_ofJson item hitem, wellFormedItems_ofItems rest hrest⟩

theorem wellFormedEntries_ofEntries : ∀ entries : List (String × Json),
    Json.wellFormedEntries entries = true -> wellFormedEntries (ofEntries entries) = true
  | [], _ => rfl
  | (_, value) :: rest, h => by
      rcases Bool.and_eq_true_iff.mp h with ⟨hvalue, hrest⟩
      exact Bool.and_eq_true_iff.mpr
        ⟨isWellFormed_ofJson value hvalue, wellFormedEntries_ofEntries rest hrest⟩

end

mutual

theorem isWellFormed_toJson : ∀ x : Fact, x.isWellFormed = true -> x.toJson.isWellFormed = true
  | .absent, _ => rfl
  | .null, _ => rfl
  | .bool _, _ => rfl
  | .num x, _ => Json.isWellFormed_ofNumber x
  | .str _, _ => rfl
  | .list items, h => wellFormedItems_toItems items h
  | .map entries, h => by
      rcases Bool.and_eq_true_iff.mp h with ⟨hsorted, hentries⟩
      have htable : Table.Sorted (toEntries entries) := by
        rw [Table.sorted_iff_keys, keys_toEntries, ← Table.sorted_iff_keys]
        exact of_decide_eq_true hsorted
      exact Bool.and_eq_true_iff.mpr
        ⟨decide_eq_true htable, wellFormedEntries_toEntries entries hentries⟩

theorem wellFormedItems_toItems : ∀ items : List Fact, wellFormedItems items = true ->
    Json.wellFormedItems (toItems items) = true
  | [], _ => rfl
  | item :: rest, h => by
      rcases Bool.and_eq_true_iff.mp h with ⟨hitem, hrest⟩
      exact Bool.and_eq_true_iff.mpr
        ⟨isWellFormed_toJson item hitem, wellFormedItems_toItems rest hrest⟩

theorem wellFormedEntries_toEntries : ∀ entries : List (String × Fact),
    wellFormedEntries entries = true -> Json.wellFormedEntries (toEntries entries) = true
  | [], _ => rfl
  | (_, value) :: rest, h => by
      rcases Bool.and_eq_true_iff.mp h with ⟨hvalue, hrest⟩
      exact Bool.and_eq_true_iff.mpr
        ⟨isWellFormed_toJson value hvalue, wellFormedEntries_toEntries rest hrest⟩

end

end Fact

/-!
# Paths
-/

namespace Json

theorem isWellFormed_of_step {segment : String} {value next : Json}
    (h : value.isWellFormed = true) (hstep : Path.step? segment value = some next) :
    next.isWellFormed = true := by
  cases value with
  | obj entries =>
      exact isWellFormed_of_mem_entries (Bool.and_eq_true_iff.mp h).2 (Table.mem_of_get? hstep)
  | arr items =>
      obtain ⟨i, _, hitem⟩ := Option.bind_eq_some_iff.mp hstep
      exact isWellFormed_of_mem h (List.mem_of_getElem? hitem)
  | _ => cases hstep

theorem isWellFormed_of_walk {segments : List String} {value found : Json}
    (h : value.isWellFormed = true) (hwalk : Path.walk? segments value = some found) :
    found.isWellFormed = true := by
  induction segments generalizing value with
  | nil =>
      cases hwalk
      exact h
  | cons segment rest ih =>
      obtain ⟨next, hstep, hrest⟩ := Option.bind_eq_some_iff.mp hwalk
      exact ih (isWellFormed_of_step h hstep) hrest

theorem isWellFormed_lookup {facts : Json} (h : facts.isWellFormed = true) (path : String) :
    (facts.lookup path).isWellFormed = true := by
  unfold lookup
  split
  · exact Fact.isWellFormed_ofJson facts h
  · split
    · rename_i found hwalk
      exact Fact.isWellFormed_ofJson found (isWellFormed_of_walk h hwalk)
    · rfl

end Json

/-!
# Operators
-/

namespace Fact

theorem isWellFormed_of_mem_items {x : Fact} (h : x.isWellFormed = true) {item : Fact}
    (hitem : item ∈ x.items) : item.isWellFormed = true := by
  cases x with
  | list items => exact wellFormedItems_iff.mp h item hitem
  | _ => cases hitem

theorem isWellFormed_getD {args : List Fact} (h : ∀ x ∈ args, x.isWellFormed = true) (i : Nat)
    {default : Fact} (hdefault : default.isWellFormed = true) :
    (args.getD i default).isWellFormed = true := by
  rw [List.getD_eq_getElem?_getD]
  cases harg : args[i]? with
  | none => exact hdefault
  | some x => exact h x (List.mem_of_getElem? harg)

end Fact

namespace Op

theorem isWellFormed_apply (op : Op) (isStrict : op.reads ≠ .lazy) {args : List Fact}
    (h : ∀ x ∈ args, x.isWellFormed = true) : (op.apply isStrict args).isWellFormed = true := by
  cases op with
  | and | or | cond => exact absurd rfl isStrict
  | intersect =>
      apply Fact.wellFormedItems_iff.mpr
      intro x hx
      exact Fact.isWellFormed_of_mem_items (Fact.isWellFormed_getD h 0 rfl)
        ((Fact.intersect_sublist _ _).subset hx)
  | _ => rfl

end Op
end Reckoner
