import Reckoner.Digest.Basic
import Reckoner.Proofs.Json.Record
import Reckoner.Proofs.Json.Text

/-!
# Canonical texts

Two values have the same canonical text if and only if they are the same but for the
order in which their objects list their entries.  Sorting makes a document of a value
and forgets nothing but that order, and the text of a document is the text of no other
one.
-/

namespace Reckoner

/-!
# The bytes of a text
-/

theorem toList_loop (bytes : ByteArray) (i : Nat) (read : List UInt8) :
    ByteArray.toList.loop bytes i read = read.reverse ++ bytes.data.toList.drop i := by
  induction i, read using ByteArray.toList.loop.induct bytes with
  | case1 i read hi ih =>
      have hlength : i < bytes.data.toList.length := by
        rw [Array.length_toList]
        exact hi
      have hget : bytes.get! i = bytes.data.toList[i] := by
        show bytes.data[i]! = _
        rw [getElem!_pos bytes.data i hi]
        rfl
      rw [ByteArray.toList.loop, if_pos hi, ih, List.reverse_cons, List.append_assoc,
        List.drop_eq_getElem_cons hlength, hget]
      rfl
  | case2 i read hi =>
      rw [ByteArray.toList.loop, if_neg hi, List.drop_eq_nil_of_le, List.append_nil]
      rw [Array.length_toList]
      exact Nat.le_of_not_lt hi

theorem toList_toUTF8_injective {a b : String} (h : a.toUTF8.toList = b.toUTF8.toList) :
    a = b := by
  have hbytes (bytes : ByteArray) : bytes.toList = bytes.data.toList := toList_loop bytes 0 []
  rw [hbytes, hbytes] at h
  apply String.toByteArray_inj.mp
  exact ByteArray.ext (Array.toList_inj.mp h)

namespace Json

/-!
# Values in any order
-/

mutual

/-- Whether a value is one of a document, but for the order in which objects list their entries. -/
def isUnordered : Json -> Bool
  | .null => true
  | .bool _ => true
  | .num n => (Json.num n).isWellFormed
  | .str _ => true
  | .arr items => unorderedItems items
  | .obj entries => decide (Table.keys entries).Nodup && unorderedEntries entries

def unorderedItems : List Json -> Bool
  | [] => true
  | item :: rest => item.isUnordered && unorderedItems rest

def unorderedEntries : List (String × Json) -> Bool
  | [] => true
  | (_, value) :: rest => value.isUnordered && unorderedEntries rest

end

/-- A value of a document, but for the order in which objects list their entries. -/
structure Unordered where
  value : Json
  unordered : value.isUnordered = true

/-- Being the same but for the order of entries: arrays agree place by place, and objects name by
name. An integer is no double, and the two zeros are different doubles. -/
inductive Same : Json -> Json -> Prop where
  | null : Same .null .null
  | bool (value : Bool) : Same (.bool value) (.bool value)
  | num (value : Number) : Same (.num value) (.num value)
  | str (value : String) : Same (.str value) (.str value)
  | arr {items items' : List Json} :
      items.length = items'.length ->
      (∀ (i : Nat) (item item' : Json), items[i]? = some item -> items'[i]? = some item' ->
        Same item item') ->
        Same (.arr items) (.arr items')
  | obj {entries entries' : List (String × Json)} :
      (∀ name, Table.contains entries name = Table.contains entries' name) ->
      (∀ name value value', Table.get? entries name = some value ->
        Table.get? entries' name = some value' -> Same value value') ->
        Same (.obj entries) (.obj entries')

theorem unorderedItems_iff {items : List Json} :
    unorderedItems items = true ↔ ∀ item ∈ items, item.isUnordered = true := by
  induction items with
  | nil =>
      constructor
      · intro _ item hitem
        cases hitem
      · intro _
        rfl
  | cons item rest ih =>
      rw [List.forall_mem_cons, ← ih]
      exact Bool.and_eq_true_iff

theorem unorderedEntries_iff {entries : List (String × Json)} :
    unorderedEntries entries = true ↔ ∀ entry ∈ entries, entry.2.isUnordered = true := by
  induction entries with
  | nil =>
      constructor
      · intro _ entry hentry
        cases hentry
      · intro _
        rfl
  | cons entry rest ih =>
      rw [List.forall_mem_cons, ← ih]
      exact Bool.and_eq_true_iff

theorem isUnordered_obj {entries : List (String × Json)}
    (h : (Json.obj entries).isUnordered = true) :
    (Table.keys entries).Nodup ∧ ∀ entry ∈ entries, entry.2.isUnordered = true := by
  rcases Bool.and_eq_true_iff.mp h with ⟨hnodup, hentries⟩
  exact ⟨of_decide_eq_true hnodup, unorderedEntries_iff.mp hentries⟩

/-!
# Sorting
-/

theorem wellFormedEntries_iff {entries : List (String × Json)} :
    wellFormedEntries entries = true ↔ ∀ entry ∈ entries, entry.2.isWellFormed = true := by
  constructor
  · intro h entry hentry
    exact isWellFormed_of_mem_entries h hentry
  · intro h
    induction entries with
    | nil => rfl
    | cons entry rest ih =>
        rw [List.forall_mem_cons] at h
        exact Bool.and_eq_true_iff.mpr ⟨h.1, ih h.2⟩

theorem keys_sortedEntries (entries : List (String × Json)) :
    Table.keys (sortedEntries entries) = Table.keys entries := by
  rw [sortedEntries_eq_mapValues, Table.keys_mapValues]

mutual

/-- Sorting makes the value of a document. -/
theorem isWellFormed_sorted : ∀ value : Json, value.isUnordered = true ->
    value.sorted.isWellFormed = true
  | .null, _ => rfl
  | .bool _, _ => rfl
  | .num _, h => h
  | .str _, _ => rfl
  | .arr items, h => wellFormedItems_sortedItems items h
  | .obj entries, h => by
      rcases Bool.and_eq_true_iff.mp h with ⟨hnodup, hentries⟩
      have hkeys : (Table.keys (sortedEntries entries)).Nodup := by
        rw [keys_sortedEntries]
        exact of_decide_eq_true hnodup
      have hsorted := wellFormedEntries_iff.mp (wellFormedEntries_sortedEntries entries hentries)
      apply Bool.and_eq_true_iff.mpr
      constructor
      · exact decide_eq_true (Table.sorted_ofList _)
      · apply wellFormedEntries_iff.mpr
        intro entry hentry
        exact hsorted entry ((Table.ofList_perm hkeys).subset hentry)

theorem wellFormedItems_sortedItems : ∀ items : List Json, unorderedItems items = true ->
    wellFormedItems (sortedItems items) = true
  | [], _ => rfl
  | item :: rest, h => by
      rcases Bool.and_eq_true_iff.mp h with ⟨hitem, hrest⟩
      exact Bool.and_eq_true_iff.mpr
        ⟨isWellFormed_sorted item hitem, wellFormedItems_sortedItems rest hrest⟩

theorem wellFormedEntries_sortedEntries : ∀ entries : List (String × Json),
    unorderedEntries entries = true -> wellFormedEntries (sortedEntries entries) = true
  | [], _ => rfl
  | (_, value) :: rest, h => by
      rcases Bool.and_eq_true_iff.mp h with ⟨hvalue, hrest⟩
      exact Bool.and_eq_true_iff.mpr
        ⟨isWellFormed_sorted value hvalue, wellFormedEntries_sortedEntries rest hrest⟩

end

/-- What is found under a name of a sorted object. -/
theorem get?_sorted_obj {entries : List (String × Json)} (h : (Table.keys entries).Nodup)
    (name : String) :
    (Table.ofList (sortedEntries entries)).get? name = (Table.get? entries name).map sorted := by
  have hkeys : (Table.keys (sortedEntries entries)).Nodup := by
    rw [keys_sortedEntries]
    exact h
  rw [Table.get?_ofList hkeys, sortedEntries_eq_mapValues]
  exact Table.get?_mapValues entries sorted name

/-!
# The same sorted form
-/

theorem sorted_eq_of_same {a b : Json} (h : Same a b) (ha : a.isUnordered = true)
    (hb : b.isUnordered = true) : a.sorted = b.sorted := by
  induction h with
  | null => rfl
  | bool value => rfl
  | num value => rfl
  | str value => rfl
  | @arr items items' hlength _ ih =>
      show Json.arr (sortedItems items) = Json.arr (sortedItems items')
      rw [sortedItems_eq_map, sortedItems_eq_map]
      congr 1
      apply List.ext_getElem
      · rw [List.length_map, List.length_map]
        exact hlength
      · intro i hi hi'
        rw [List.length_map] at hi hi'
        rw [List.getElem_map, List.getElem_map]
        apply ih i _ _ (List.getElem?_eq_getElem hi) (List.getElem?_eq_getElem hi')
        · exact unorderedItems_iff.mp ha _ (List.getElem_mem hi)
        · exact unorderedItems_iff.mp hb _ (List.getElem_mem hi')
  | @obj entries entries' hnames _ ih =>
      obtain ⟨hnodup, hvalues⟩ := isUnordered_obj ha
      obtain ⟨hnodup', hvalues'⟩ := isUnordered_obj hb
      show Json.obj (Table.ofList (sortedEntries entries)) =
        Json.obj (Table.ofList (sortedEntries entries'))
      congr 1
      apply Table.eq_of_get? (Table.sorted_ofList _) (Table.sorted_ofList _)
      intro name
      rw [get?_sorted_obj hnodup, get?_sorted_obj hnodup']
      have hname := hnames name
      unfold Table.contains at hname
      cases hvalue : Table.get? entries name with
      | none =>
          rw [hvalue] at hname
          have hvalue' : Table.get? entries' name = none := by
            rw [← Option.not_isSome_iff_eq_none, ← hname]
            exact Bool.false_ne_true
          rw [hvalue']
      | some value =>
          rw [hvalue] at hname
          obtain ⟨value', hvalue'⟩ := Option.isSome_iff_exists.mp hname.symm
          rw [hvalue']
          apply congrArg some
          apply ih name value value' hvalue hvalue'
          · exact hvalues (name, value) (Table.mem_of_get? hvalue)
          · exact hvalues' (name, value') (Table.mem_of_get? hvalue')

mutual

theorem same_of_sorted_eq : ∀ (a : Json) {b : Json}, a.isUnordered = true ->
    b.isUnordered = true -> a.sorted = b.sorted -> Same a b
  | .null, b, _, _, h => by
      cases b with
      | null => exact .null
      | _ => cases h
  | .bool value, b, _, _, h => by
      cases b with
      | bool value' =>
          cases h
          exact .bool value
      | _ => cases h
  | .num n, b, _, _, h => by
      cases b with
      | num n' =>
          cases h
          exact .num n
      | _ => cases h
  | .str value, b, _, _, h => by
      cases b with
      | str value' =>
          cases h
          exact .str value
      | _ => cases h
  | .arr items, b, ha, hb, h => by
      cases b with
      | arr items' =>
          have hitems : sortedItems items = sortedItems items' := Json.arr.inj h
          rw [sortedItems_eq_map, sortedItems_eq_map] at hitems
          constructor
          · have hlength := congrArg List.length hitems
            rw [List.length_map, List.length_map] at hlength
            exact hlength
          · intro i item item' hitem hitem'
            have hplace := congrArg (fun items => items[i]?) hitems
            simp only [List.getElem?_map, hitem, hitem', Option.map_some,
              Option.some.injEq] at hplace
            have hmem := List.mem_of_getElem? hitem'
            exact same_item_of_sorted_eq items ha item (List.mem_of_getElem? hitem)
              (unorderedItems_iff.mp hb item' hmem) hplace
      | _ => cases h
  | .obj entries, b, ha, hb, h => by
      cases b with
      | obj entries' =>
          have htables := Json.obj.inj h
          obtain ⟨hnodup, _⟩ := isUnordered_obj ha
          obtain ⟨hnodup', hvalues'⟩ := isUnordered_obj hb
          have hfound (name : String) : (Table.get? entries name).map sorted =
              (Table.get? entries' name).map sorted := by
            rw [← get?_sorted_obj hnodup, ← get?_sorted_obj hnodup', htables]
          constructor
          · intro name
            have hname := congrArg Option.isSome (hfound name)
            rw [Option.isSome_map, Option.isSome_map] at hname
            exact hname
          · intro name value value' hvalue hvalue'
            have hsame := hfound name
            rw [hvalue, hvalue', Option.map_some, Option.map_some, Option.some.injEq] at hsame
            have hmem := Table.mem_of_get? hvalue'
            exact same_value_of_sorted_eq entries (Bool.and_eq_true_iff.mp ha).2 (name, value)
              (Table.mem_of_get? hvalue) (hvalues' (name, value') hmem) hsame
      | _ => cases h

theorem same_item_of_sorted_eq : ∀ (items : List Json), unorderedItems items = true ->
    ∀ item ∈ items, ∀ {b : Json}, b.isUnordered = true -> item.sorted = b.sorted -> Same item b
  | [], _, item, hitem, _, _, _ => absurd hitem List.not_mem_nil
  | first :: rest, hitems, item, hitem, b, hb, h => by
      rcases Bool.and_eq_true_iff.mp hitems with ⟨hfirst, hrest⟩
      cases hitem with
      | head => exact same_of_sorted_eq first hfirst hb h
      | tail _ hmem => exact same_item_of_sorted_eq rest hrest item hmem hb h

theorem same_value_of_sorted_eq : ∀ (entries : List (String × Json)),
    unorderedEntries entries = true -> ∀ entry ∈ entries, ∀ {b : Json}, b.isUnordered = true ->
      entry.2.sorted = b.sorted -> Same entry.2 b
  | [], _, entry, hentry, _, _, _ => absurd hentry List.not_mem_nil
  | (name, value) :: rest, hentries, entry, hentry, b, hb, h => by
      rcases Bool.and_eq_true_iff.mp hentries with ⟨hvalue, hrest⟩
      cases hentry with
      | head => exact same_of_sorted_eq value hvalue hb h
      | tail _ hmem => exact same_value_of_sorted_eq rest hrest entry hmem hb h

end

/-!
# The same text
-/

def canonicalBytes (value : Json) : List UInt8 :=
  value.canonicalText.toUTF8.toList

/-- What is hashed is the same for two values if and only if they are the same but for the order of
entries. -/
theorem canonicalBytes_eq_iff_same (a b : Unordered) :
    Digest.ofJson a.value = Digest.ofBytes (canonicalBytes a.value) ∧
      Digest.ofJson b.value = Digest.ofBytes (canonicalBytes b.value) ∧
      (canonicalBytes a.value = canonicalBytes b.value ↔ Same a.value b.value) := by
  refine ⟨rfl, rfl, ?_⟩
  constructor
  · intro hbytes
    have htext : a.value.sorted.text = b.value.sorted.text := toList_toUTF8_injective hbytes
    have hsorted := text_injective (isWellFormed_sorted a.value a.unordered)
      (isWellFormed_sorted b.value b.unordered) htext
    exact same_of_sorted_eq a.value a.unordered b.unordered hsorted
  · intro hsame
    show a.value.sorted.text.toUTF8.toList = b.value.sorted.text.toUTF8.toList
    rw [sorted_eq_of_same hsame a.unordered b.unordered]

end Json
end Reckoner
