import Reckoner.Table
import Mathlib.Data.List.Induction
import Mathlib.Data.List.Sort

/-!
# Tables as lists of entries

A table that is sorted lists every name once, so looking a name up and finding its
entry are the same.  A list of entries with different names makes a table of just
these entries, whatever their order.
-/

namespace Reckoner
namespace Table

universe u v

variable {α : Type u} {β : Type v}

instance (entries : Table α) : Decidable (Sorted entries) :=
  inferInstanceAs (Decidable (List.Pairwise _ entries))

/-!
# Names
-/

theorem sorted_iff_keys (entries : Table α) :
    entries.Sorted ↔ entries.keys.Pairwise (· < ·) :=
  List.pairwise_map.symm

theorem contains_eq_keys (entries : Table α) (name : String) :
    entries.contains name = entries.keys.contains name := by
  induction entries with
  | nil => rfl
  | cons entry rest ih =>
      show (if entry.1 = name then some entry.2 else get? rest name).isSome =
        (entry.1 :: keys rest).contains name
      by_cases hsame : entry.1 = name
      · simp [hsame]
      · have hother : (name == entry.1) = false := beq_false_of_ne (Ne.symm hsame)
        rw [if_neg hsame, List.contains_cons, hother, Bool.false_or]
        exact ih

theorem contains_iff_mem_keys {entries : Table α} {name : String} :
    entries.contains name = true ↔ name ∈ entries.keys := by
  rw [contains_eq_keys, List.contains_iff_mem]

/-- Leaving out the names of a table is leaving out the names of a list, if the table has just
these. -/
theorem filter_not_contains {entries : Table α} {names : List String}
    (h : ∀ name, entries.contains name = true ↔ name ∈ names) (ids : List String) :
    (ids.filter fun id => !entries.contains id) = ids.filter fun id => id ∉ names := by
  apply List.filter_congr
  intro id _
  rw [Bool.eq_iff_iff, Bool.not_eq_true', ← Bool.not_eq_true, h id, decide_eq_true_iff]

theorem contains_insert_iff {entries : Table α} {name other : String} {value : α} :
    (entries.insert name value).contains other = true ↔
      other = name ∨ entries.contains other = true := by
  unfold contains
  by_cases hsame : name = other
  · rw [hsame, get?_insert_self]
    simp
  · have hne : other ≠ name := Ne.symm hsame
    rw [get?_insert_of_ne entries value hsame]
    simp [hne]

theorem Sorted.nodup_keys {entries : Table α} (h : entries.Sorted) : entries.keys.Nodup := by
  apply ((sorted_iff_keys entries).mp h).imp
  intro a b hbefore heq
  rw [heq] at hbefore
  exact String.lt_irrefl b hbefore

/-- Tables with the same names list them in the same order. -/
theorem keys_eq_of_mem_iff {as : Table α} {bs : Table β} (has : as.Sorted) (hbs : bs.Sorted)
    (h : ∀ name, name ∈ as.keys ↔ name ∈ bs.keys) : as.keys = bs.keys := by
  have hperm : as.keys.Perm bs.keys :=
    (List.perm_ext_iff_of_nodup has.nodup_keys hbs.nodup_keys).mpr h
  apply hperm.eq_of_pairwise _ ((sorted_iff_keys as).mp has) ((sorted_iff_keys bs).mp hbs)
  intro a b _ _ hab hba
  exact absurd (String.lt_trans hab hba) (String.lt_irrefl a)

@[simp] theorem keys_mapValues (entries : Table α) (f : α -> β) :
    (entries.mapValues f).keys = entries.keys :=
  List.map_map

@[simp] theorem values_mapValues (entries : Table α) (f : α -> β) :
    (entries.mapValues f).values = entries.values.map f := by
  simp [mapValues, values]

/-!
# Entries
-/

theorem get?_of_mem {entries : Table α} (hnodup : entries.keys.Nodup) {entry : String × α}
    (h : entry ∈ entries) : entries.get? entry.1 = some entry.2 := by
  induction entries with
  | nil => cases h
  | cons head rest ih =>
      obtain ⟨hhead, hrest⟩ := List.nodup_cons.mp hnodup
      show (if head.1 = entry.1 then some head.2 else get? rest entry.1) = some entry.2
      rcases List.mem_cons.mp h with rfl | hmem
      · exact if_pos rfl
      · have hne : head.1 ≠ entry.1 := by
          intro heq
          exact hhead (heq ▸ List.mem_map_of_mem hmem)
        rw [if_neg hne]
        exact ih hrest hmem

theorem get?_append (entries more : Table α) (name : String) :
    get? (entries ++ more) name = (entries.get? name).or (more.get? name) := by
  induction entries with
  | nil => rfl
  | cons entry rest ih =>
      show (if entry.1 = name then some entry.2 else get? (rest ++ more) name) =
        (if entry.1 = name then some entry.2 else get? rest name).or (get? more name)
      split
      · rfl
      · exact ih

theorem get?_mapValues (entries : Table α) (f : α -> β) (name : String) :
    (entries.mapValues f).get? name = (entries.get? name).map f := by
  induction entries with
  | nil => rfl
  | cons entry rest ih =>
      show (if entry.1 = name then some (f entry.2) else get? (mapValues f rest) name) =
        (if entry.1 = name then some entry.2 else get? rest name).map f
      split
      · rfl
      · exact ih

/-!
# Insertions of different names

The order of two insertions does not matter, even if the entries are not sorted: an entry is
put before the first one that is not before it.
-/

section Insert

variable {rest : List (String × α)} {name key : String} {value old : α}

theorem insert_cons_self : insert ((name, old) :: rest) name value = (name, value) :: rest :=
  if_pos rfl

theorem insert_cons_of_lt (h : name < key) :
    insert ((key, old) :: rest) name value = (name, value) :: (key, old) :: rest := by
  have hne : key ≠ name := by
    rintro rfl
    exact String.lt_irrefl key h
  conv_lhs => unfold insert
  rw [if_neg hne, if_pos h]

theorem insert_cons_of_gt (h : key < name) :
    insert ((key, old) :: rest) name value = (key, old) :: insert rest name value := by
  have hne : key ≠ name := by
    rintro rfl
    exact String.lt_irrefl key h
  have hnot : ¬ name < key := fun hlt => String.lt_irrefl name (String.lt_trans hlt h)
  conv_lhs => unfold insert
  rw [if_neg hne, if_neg hnot]

end Insert

theorem insert_comm_of_lt (entries : Table α) {a b : String} (hlt : a < b) (x y : α) :
    (entries.insert a x).insert b y = (entries.insert b y).insert a x := by
  induction entries with
  | nil =>
      show insert [(a, x)] b y = insert [(b, y)] a x
      rw [insert_cons_of_gt hlt, insert_cons_of_lt hlt]
      rfl
  | cons head rest ih =>
      rcases head with ⟨key, old⟩
      by_cases hsame : key = a
      · rw [hsame, insert_cons_self, insert_cons_of_gt hlt, insert_cons_of_gt hlt,
          insert_cons_self]
      by_cases hafter : a < key
      · rw [insert_cons_of_lt hafter, insert_cons_of_gt hlt]
        -- what the insertion of the later name leaves in front is still after the earlier name
        by_cases hkey : key = b
        · rw [hkey, insert_cons_self, insert_cons_of_lt hlt]
        by_cases hbetween : b < key
        · rw [insert_cons_of_lt hbetween, insert_cons_of_lt hlt]
        · rw [insert_cons_of_gt (lt_of_not_lt_of_ne hbetween hkey), insert_cons_of_lt hafter]
      · have hbefore : key < a := lt_of_not_lt_of_ne hafter hsame
        have hfirst : key < b := String.lt_trans hbefore hlt
        rw [insert_cons_of_gt hbefore, insert_cons_of_gt hfirst, insert_cons_of_gt hfirst,
          insert_cons_of_gt hbefore, ih]

theorem insert_comm (entries : Table α) {a b : String} (hne : a ≠ b) (x y : α) :
    (entries.insert a x).insert b y = (entries.insert b y).insert a x := by
  by_cases hlt : a < b
  · exact insert_comm_of_lt entries hlt x y
  · exact (insert_comm_of_lt entries (lt_of_not_lt_of_ne hlt hne.symm) y x).symm

/-!
# Tables of lists of entries
-/

theorem insert_of_all_lt {entries : Table α} {name : String} (value : α)
    (h : ∀ entry ∈ entries, entry.1 < name) :
    entries.insert name value = entries ++ [(name, value)] := by
  induction entries with
  | nil => rfl
  | cons head rest ih =>
      have hbefore : head.1 < name := h head List.mem_cons_self
      have hrest := ih fun entry hentry => h entry (List.mem_cons_of_mem head hentry)
      have hne : head.1 ≠ name := by
        intro heq
        rw [heq] at hbefore
        exact String.lt_irrefl name hbefore
      have hnot : ¬ name < head.1 := by
        intro hafter
        exact String.lt_irrefl name (String.lt_trans hafter hbefore)
      show (if head.1 = name then _ else _) = _
      rw [if_neg hne, if_neg hnot, hrest]
      rfl

theorem foldl_insert_of_sorted {table entries : Table α} (h : Sorted (table ++ entries)) :
    entries.foldl (fun table entry => table.insert entry.1 entry.2) table =
      table ++ entries := by
  induction entries generalizing table with
  | nil => exact (List.append_nil table).symm
  | cons entry rest ih =>
      have hbefore : ∀ other ∈ table, other.1 < entry.1 := by
        intro other hother
        exact (List.pairwise_append.mp h).2.2 other hother entry List.mem_cons_self
      have hassoc : table ++ [entry] ++ rest = table ++ entry :: rest := by
        rw [List.append_assoc]
        rfl
      rw [List.foldl_cons, insert_of_all_lt entry.2 hbefore, ← hassoc]
      apply ih
      rw [hassoc]
      exact h

theorem ofList_append_singleton (entries : List (String × α)) (entry : String × α) :
    ofList (entries ++ [entry]) = (ofList entries).insert entry.1 entry.2 := by
  simp only [ofList, List.foldl_append, List.foldl_cons, List.foldl_nil]

theorem contains_ofList_iff {entries : List (String × α)} {name : String} :
    (ofList entries).contains name = true ↔ name ∈ entries.map Prod.fst := by
  induction entries using List.reverseRecOn with
  | nil =>
      constructor
      · intro h
        cases h
      · intro h
        cases h
  | append_singleton entries entry ih =>
      rw [ofList_append_singleton, contains_insert_iff, ih, List.map_append, List.mem_append,
        or_comm]
      exact or_congr_right List.mem_singleton.symm

theorem ofList_of_sorted {entries : Table α} (h : Sorted entries) : ofList entries = entries :=
  foldl_insert_of_sorted h

theorem insert_perm {entries : Table α} {name : String} (value : α)
    (h : ∀ entry ∈ entries, entry.1 ≠ name) :
    (entries.insert name value).Perm ((name, value) :: entries) := by
  induction entries with
  | nil => exact .refl _
  | cons head rest ih =>
      unfold insert
      rw [if_neg (h head List.mem_cons_self)]
      split
      · exact .refl _
      · have hrest := ih fun entry hentry => h entry (List.mem_cons_of_mem head hentry)
        exact (hrest.cons head).trans (.swap _ _ rest)

theorem foldl_insert_perm {table entries : Table α}
    (h : (table ++ entries).Pairwise fun a b => a.1 ≠ b.1) :
    (entries.foldl (fun table entry => table.insert entry.1 entry.2) table).Perm
      (table ++ entries) := by
  induction entries generalizing table with
  | nil =>
      rw [List.append_nil]
      exact .refl _
  | cons entry rest ih =>
      have hmiddle : (table ++ entry :: rest).Perm (entry :: table ++ rest) := List.perm_middle
      have hnew : ∀ other ∈ table, other.1 ≠ entry.1 := by
        intro other hother
        exact (List.pairwise_append.mp h).2.2 other hother entry List.mem_cons_self
      have hinsert := (insert_perm entry.2 hnew).append_right rest
      have hdistinct := (hmiddle.trans hinsert.symm).pairwise h Ne.symm
      exact (ih hdistinct).trans (hinsert.trans hmiddle.symm)

theorem ofList_perm {entries : List (String × α)} (h : (keys entries).Nodup) :
    (ofList entries).Perm entries :=
  foldl_insert_perm (List.pairwise_map.mp h)

/-- Look-ups do not depend on the order of entries with different names. -/
theorem get?_of_perm {as bs : List (String × α)} (h : as.Perm bs) (hnodup : (keys as).Nodup)
    (name : String) : get? as name = get? bs name := by
  have hnodup' : (keys bs).Nodup := (h.map Prod.fst).nodup_iff.mp hnodup
  apply Option.ext
  intro value
  constructor
  · intro hvalue
    exact get?_of_mem hnodup' (h.subset (mem_of_get? hvalue))
  · intro hvalue
    exact get?_of_mem hnodup (h.symm.subset (mem_of_get? hvalue))

theorem get?_ofList {entries : List (String × α)} (h : (keys entries).Nodup) (name : String) :
    (ofList entries).get? name = get? entries name :=
  (get?_of_perm (ofList_perm h).symm h name).symm

/-- Tables of the same entries are the same. -/
theorem Sorted.eq_of_perm {as bs : Table α} (has : as.Sorted) (hbs : bs.Sorted)
    (h : List.Perm as bs) : as = bs := by
  apply h.eq_of_pairwise _ has hbs
  intro a b _ _ hab hba
  exact absurd (String.lt_trans hab hba) (String.lt_irrefl a.1)

/-- Tables with the same look-ups are the same. -/
theorem eq_of_get? {as bs : Table α} (has : as.Sorted) (hbs : bs.Sorted)
    (h : ∀ name, as.get? name = bs.get? name) : as = bs := by
  have hmem : ∀ entry, entry ∈ as ↔ entry ∈ bs := by
    intro entry
    constructor
    · intro hentry
      apply mem_of_get?
      rw [← h]
      exact get?_of_mem has.nodup_keys hentry
    · intro hentry
      apply mem_of_get?
      rw [h]
      exact get?_of_mem hbs.nodup_keys hentry
  exact has.eq_of_perm hbs
    ((List.perm_ext_iff_of_nodup has.nodup_keys.of_map hbs.nodup_keys.of_map).mpr hmem)

/-- Entries in any order make the table that lists them in order. -/
theorem ofList_of_perm {entries table : Table α} (hperm : List.Perm entries table)
    (hsorted : table.Sorted) : ofList entries = table := by
  have hnodup : (keys entries).Nodup := (hperm.map Prod.fst).nodup_iff.mpr hsorted.nodup_keys
  exact (sorted_ofList entries).eq_of_perm hsorted ((ofList_perm hnodup).trans hperm)

end Table
end Reckoner
