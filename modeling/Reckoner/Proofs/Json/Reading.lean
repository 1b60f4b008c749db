import Reckoner.Json.Record
import Reckoner.Proofs.Json.Document

/-!
# Reading values that are known

A value that is known already holds no faults, so a decoder sees the value and
nothing else.  For each decoder there is a lemma that says how it reads values of the
kind that it wants, and one that says what it has read when it succeeds.
-/

namespace Reckoner

/-!
# Computations that succeed
-/

section Succeed

variable {α β ε : Type} {x : Except ε α} {b : β}

theorem exists_of_bind_eq_ok {f : α -> Except ε β} (h : x.bind f = .ok b) :
    ∃ a, x = .ok a ∧ f a = .ok b := by
  cases x with
  | error e => cases h
  | ok a => exact ⟨a, rfl, h⟩

theorem exists_of_map_eq_ok {f : α -> β} (h : x.map f = .ok b) : ∃ a, x = .ok a ∧ f a = b := by
  cases x with
  | error e => cases h
  | ok a =>
      cases h
      exact ⟨a, rfl, rfl⟩

end Succeed

namespace Json

theorem ofItems_eq_map (items : List Json) : Draft.ofItems items = items.map Draft.ofJson := by
  induction items with
  | nil => rfl
  | cons item rest ih =>
      show Draft.ofJson item :: Draft.ofItems rest = _
      rw [ih]
      rfl

theorem wellFormedEntries_mapValues {α : Type} {encode : α -> Json} {table : Table α}
    (h : ∀ entry ∈ table, (encode entry.2).isWellFormed = true) :
    wellFormedEntries (table.mapValues encode) = true := by
  induction table with
  | nil => rfl
  | cons entry rest ih =>
      have hrest := ih fun other hother => h other (List.mem_cons_of_mem entry hother)
      exact Bool.and_eq_true_iff.mpr ⟨h entry List.mem_cons_self, hrest⟩

namespace Decoder

/-!
# Whole values
-/

mutual

theorem json_ofJson : ∀ value : Json, json .value (.ofJson value) = .ok value.sorted
  | .null => rfl
  | .bool _ => rfl
  | .num _ => rfl
  | .str _ => rfl
  | .arr items => by
      show (jsonItems .value (Draft.ofItems items) >>= fun values =>
        Except.ok (Json.arr values)) = _
      rw [jsonItems_ofItems items]
      rfl
  | .obj entries => by
      show (jsonEntries .value (Draft.ofEntries entries) [] >>= fun values =>
        Except.ok (Json.obj values)) = _
      rw [jsonEntries_ofEntries entries []]
      rfl

theorem jsonItems_ofItems : ∀ items : List Json,
    jsonItems .value (Draft.ofItems items) = .ok (sortedItems items)
  | [] => rfl
  | item :: rest => by
      show (json .value (.ofJson item) >>= fun value =>
        jsonItems .value (Draft.ofItems rest) >>= fun values => .ok (value :: values)) = _
      rw [json_ofJson item, jsonItems_ofItems rest]
      rfl

theorem jsonEntries_ofEntries : ∀ (entries : List (String × Json)) (table : Table Json),
    jsonEntries .value (Draft.ofEntries entries) table =
      .ok ((sortedEntries entries).foldl
        (fun table entry => table.insert entry.1 entry.2) table)
  | [], _ => rfl
  | (name, value) :: rest, table => by
      show (json .value (.ofJson value) >>= fun value =>
        jsonEntries .value (Draft.ofEntries rest) (table.insert name value)) = _
      rw [json_ofJson value]
      exact jsonEntries_ofEntries rest (table.insert name value.sorted)

end

section Via

variable {α ε : Type} {make : Json -> Except ε α} {reason : ε -> String} {value : Json}

theorem fromValue_via_eq (hvalue : value.isWellFormed = true) :
    fromValue (via make reason) value =
      (make value).mapError fun refusal => .data (.ofReason (reason refusal)) := by
  unfold fromValue via
  rw [json_ofJson, sorted_of_isWellFormed value hvalue]
  simp only [bind, Except.bind]
  cases make value <;> rfl

theorem fromValue_via (hvalue : value.isWellFormed = true) {a : α} (h : make value = .ok a) :
    fromValue (via make reason) value = .ok a := by
  rw [fromValue_via_eq hvalue, h]
  rfl

theorem made_of_via (hvalue : value.isWellFormed = true) {a : α}
    (h : fromValue (via make reason) value = .ok a) : make value = .ok a := by
  rw [fromValue_via_eq hvalue] at h
  cases hmade : make value with
  | ok made =>
      rw [hmade] at h
      cases h
      rfl
  | error refusal =>
      rw [hmade] at h
      cases h

end Via

/-!
# Values inside values
-/

section Inside

variable {α : Type} {inner : Decoder α} {value : Json}

theorem fromValue_optional (hvalue : value ≠ .null) :
    fromValue (optional inner) value = (fromValue inner value).map some := by
  cases value with
  | null => exact absurd rfl hvalue
  | _ => rfl

theorem of_optional {a : α} (h : fromValue (optional inner) value = .ok (some a)) :
    value ≠ .null ∧ fromValue inner value = .ok a := by
  have hvalue : value ≠ .null := by
    rintro rfl
    cases h
  rw [fromValue_optional hvalue] at h
  obtain ⟨b, hread, hb⟩ := exists_of_map_eq_ok h
  cases hb
  exact ⟨hvalue, hread⟩

theorem mapM_eq_ok_map {β ε : Type} {f : β -> Except ε α} {g : β -> α} {xs : List β}
    (h : ∀ x ∈ xs, f x = .ok (g x)) : xs.mapM f = .ok (xs.map g) := by
  induction xs with
  | nil => rfl
  | cons x rest ih =>
      have hrest := ih fun y hy => h y (List.mem_cons_of_mem x hy)
      rw [List.mapM_cons, h x List.mem_cons_self, hrest]
      rfl

theorem exists_of_mem_mapM {β ε : Type} {f : β -> Except ε α} {xs : List β} {ys : List α}
    (h : xs.mapM f = .ok ys) {y : α} (hy : y ∈ ys) : ∃ x ∈ xs, f x = .ok y := by
  induction xs generalizing ys with
  | nil =>
      cases h
      cases hy
  | cons x rest ih =>
      rw [List.mapM_cons] at h
      obtain ⟨head, hx, h⟩ := exists_of_bind_eq_ok h
      obtain ⟨tail, hrest, h⟩ := exists_of_bind_eq_ok h
      cases h
      rcases List.mem_cons.mp hy with rfl | hmem
      · exact ⟨x, List.mem_cons_self, hx⟩
      · obtain ⟨other, hother, hread⟩ := ih hrest hmem
        exact ⟨other, List.mem_cons_of_mem x hother, hread⟩

theorem fromValue_list (items : List Json) :
    fromValue (list inner) (.arr items) = items.mapM (fromValue inner) := by
  show ((Draft.ofItems items).mapM (inner .value) >>= fun values => .ok values) = _
  rw [ofItems_eq_map, List.mapM_map]
  exact bind_pure _

theorem fromValue_list_map {β : Type} {encode : β -> Json} (read : β -> α) {xs : List β}
    (h : ∀ x ∈ xs, fromValue inner (encode x) = .ok (read x)) :
    fromValue (list inner) (.arr (xs.map encode)) = .ok (xs.map read) := by
  rw [fromValue_list, List.mapM_map]
  exact mapM_eq_ok_map h

theorem of_list (hvalue : value.isWellFormed = true) {xs : List α}
    (h : fromValue (list inner) value = .ok xs) {x : α} (hx : x ∈ xs) :
    ∃ item, item.isWellFormed = true ∧ fromValue inner item = .ok x := by
  cases value with
  | arr items =>
      rw [fromValue_list] at h
      obtain ⟨item, hitem, hread⟩ := exists_of_mem_mapM h hx
      exact ⟨item, isWellFormed_of_mem hvalue hitem, hread⟩
  | _ => cases h

/-!
# Tables
-/

theorem entries_ofEntries {β : Type} {encode : β -> Json} {read : β -> α} {table : Table β}
    (h : ∀ entry ∈ table, fromValue inner (encode entry.2) = .ok (read entry.2))
    (before : Table α) :
    entries inner .value (Draft.ofEntries (table.mapValues encode)) before =
      .ok ((table.mapValues read).foldl
        (fun table entry => table.insert entry.1 entry.2) before) := by
  induction table generalizing before with
  | nil => rfl
  | cons entry rest ih =>
      have hrest := ih fun other hother => h other (List.mem_cons_of_mem entry hother)
      show (fromValue inner (encode entry.2) >>= fun value =>
        entries inner .value (Draft.ofEntries (Table.mapValues encode rest))
          (before.insert entry.1 value)) = _
      rw [h entry List.mem_cons_self]
      exact hrest (before.insert entry.1 (read entry.2))

theorem fromValue_table {β : Type} {encode : β -> Json} {read : β -> α} {table : Table β}
    (hsorted : table.Sorted)
    (h : ∀ entry ∈ table, fromValue inner (encode entry.2) = .ok (read entry.2)) :
    fromValue (Decoder.table inner) (.obj (table.mapValues encode)) =
      .ok (table.mapValues read) := by
  show (entries inner .value (Draft.ofEntries (table.mapValues encode)) [] >>= fun values =>
    Except.ok values) = _
  rw [entries_ofEntries h]
  exact congrArg Except.ok (Table.ofList_of_sorted (hsorted.mapValues read))

theorem of_entries {fields : List (String × Json)} (hfields : wellFormedEntries fields = true)
    {before after : Table α} (h : entries inner .value (Draft.ofEntries fields) before = .ok after)
    (hbefore : before.Sorted ∧ ∀ entry ∈ before,
      ∃ value, value.isWellFormed = true ∧ fromValue inner value = .ok entry.2) :
    after.Sorted ∧ ∀ entry ∈ after,
      ∃ value, value.isWellFormed = true ∧ fromValue inner value = .ok entry.2 := by
  induction fields generalizing before with
  | nil =>
      cases h
      exact hbefore
  | cons field rest ih =>
      rcases Bool.and_eq_true_iff.mp hfields with ⟨hfield, hrest⟩
      change (fromValue inner field.2 >>= fun value =>
        entries inner .value (Draft.ofEntries rest) (before.insert field.1 value)) = _ at h
      obtain ⟨value, hread, h⟩ := exists_of_bind_eq_ok h
      refine ih hrest h ⟨hbefore.1.insert field.1 value, ?_⟩
      intro entry hentry
      rcases Table.mem_insert hentry with rfl | hmem
      · exact ⟨field.2, hfield, hread⟩
      · exact hbefore.2 entry hmem

theorem of_table (hvalue : value.isWellFormed = true) {table : Table α}
    (h : fromValue (Decoder.table inner) value = .ok table) :
    table.Sorted ∧ ∀ entry ∈ table,
      ∃ value, value.isWellFormed = true ∧ fromValue inner value = .ok entry.2 := by
  cases value with
  | obj fields =>
      change (entries inner .value (Draft.ofEntries fields) [] >>= fun values =>
        Except.ok values) = _ at h
      obtain ⟨read, hread, h⟩ := exists_of_bind_eq_ok h
      cases h
      exact of_entries (Bool.and_eq_true_iff.mp hvalue).2 hread
        ⟨List.Pairwise.nil, fun entry hentry => absurd hentry List.not_mem_nil⟩
  | _ => cases h

end Inside

end Decoder
end Json
end Reckoner
