/-!
# Tables

A table is a finite map from names to values, kept as its entries in increasing
order of their names.  Names are compared character by character, which for
Unicode text is the order of their UTF-8 bytes, so a table lists its entries in
the one order in which they are read, rendered and printed.

The entries are a plain list, so that a table may occur inside the recursive
types of this library; `Table.Sorted` says what every operation keeps.
-/

namespace Reckoner

universe u v

variable {α : Type u} {β : Type v}

/-- The entries of a finite map, in increasing order of their names. -/
abbrev Table (α : Type u) := List (String × α)

namespace Table

def Sorted (entries : Table α) : Prop :=
  entries.Pairwise fun a b => a.1 < b.1

def get? (entries : Table α) (name : String) : Option α :=
  match entries with
  | [] => none
  | (key, value) :: rest => if key = name then some value else get? rest name

/-- The table with one entry set: the old value of that name, if any, is replaced. -/
def insert (entries : Table α) (name : String) (value : α) : Table α :=
  match entries with
  | [] => [(name, value)]
  | (key, old) :: rest =>
      if key = name then
        (name, value) :: rest
      else if name < key then
        (name, value) :: (key, old) :: rest
      else
        (key, old) :: insert rest name value

/-- The table of a list of entries, of which the last one for a name counts. -/
def ofList (entries : List (String × α)) : Table α :=
  entries.foldl (fun table entry => table.insert entry.1 entry.2) []

def contains (entries : Table α) (name : String) : Bool :=
  (entries.get? name).isSome

def keys (entries : Table α) : List String :=
  List.map Prod.fst entries

def values (entries : Table α) : List α :=
  List.map Prod.snd entries

def mapValues (f : α -> β) (entries : Table α) : Table β :=
  List.map (fun entry => (entry.1, f entry.2)) entries

/-!
# What look-ups find
-/

theorem mem_of_get? {entries : Table α} {name : String} {value : α}
    (h : entries.get? name = some value) : (name, value) ∈ entries := by
  induction entries with
  | nil => cases h
  | cons entry rest ih =>
      change (if entry.1 = name then some entry.2 else get? rest name) = some value at h
      split at h
      · rename_i hname
        cases h
        rw [← hname]
        exact List.mem_cons_self
      · exact List.mem_cons_of_mem entry (ih h)

/-!
# What look-ups see after an insertion
-/

theorem get?_insert_self (entries : Table α) (name : String) (value : α) :
    (entries.insert name value).get? name = some value := by
  induction entries with
  | nil => simp [insert, get?]
  | cons entry rest ih =>
      unfold insert
      by_cases same : entry.1 = name
      · simp [same, get?]
      · by_cases before : name < entry.1
        · simp [same, before, get?]
        · simp [same, before, get?, ih]

theorem get?_insert_of_ne (entries : Table α) {name other : String} (value : α)
    (ne : name ≠ other) :
    (entries.insert name value).get? other = entries.get? other := by
  induction entries with
  | nil => simp [insert, get?, ne]
  | cons entry rest ih =>
      unfold insert
      by_cases same : entry.1 = name
      · have ne' : entry.1 ≠ other := same ▸ ne
        simp [same, get?, ne]
      · by_cases before : name < entry.1
        · simp [same, before, get?, ne]
        · simp [same, before, get?, ih]

/-!
# What keeps the order
-/

theorem mem_insert {entries : Table α} {name : String} {value : α} {entry : String × α}
    (mem : entry ∈ entries.insert name value) : entry = (name, value) ∨ entry ∈ entries := by
  induction entries with
  | nil => simpa [insert] using mem
  | cons head rest ih =>
      unfold insert at mem
      split at mem
      · grind
      · split at mem <;> grind

theorem lt_of_not_lt_of_ne {a b : String} (h : ¬ a < b) (ne : b ≠ a) : b < a := by
  rcases String.le_total a b with le | le
  · exact absurd (String.le_antisymm le (String.not_lt.mp h)) (Ne.symm ne)
  · exact String.not_le.mp fun ge => ne (String.le_antisymm le ge)

theorem Sorted.insert {entries : Table α} (sorted : Sorted entries) (name : String) (value : α) :
    Sorted (entries.insert name value) := by
  induction entries with
  | nil => simp [Table.insert, Sorted]
  | cons head rest ih =>
      have later := (List.pairwise_cons.mp sorted).1
      have restSorted := (List.pairwise_cons.mp sorted).2
      unfold Table.insert
      by_cases same : head.1 = name
      · simp only [same, if_true]
        refine List.pairwise_cons.mpr ⟨fun entry mem => ?_, restSorted⟩
        exact same ▸ later entry mem
      · by_cases before : name < head.1
        · simp only [same, before, if_false, if_true]
          refine List.pairwise_cons.mpr ⟨fun entry mem => ?_, sorted⟩
          rcases List.mem_cons.mp mem with rfl | mem
          · exact before
          · exact String.lt_trans before (later entry mem)
        · simp only [same, before, if_false]
          refine List.pairwise_cons.mpr ⟨fun entry mem => ?_, ih restSorted⟩
          rcases mem_insert mem with rfl | mem
          · exact lt_of_not_lt_of_ne before same
          · exact later entry mem

theorem sorted_foldl_insert (entries : List (String × α)) {table : Table α}
    (sorted : Sorted table) :
    Sorted (entries.foldl (fun table entry => table.insert entry.1 entry.2) table) := by
  induction entries generalizing table with
  | nil => exact sorted
  | cons entry rest ih => exact ih (sorted.insert entry.1 entry.2)

/-- Whatever the order of the entries that a table is made of, it lists them in increasing order. -/
theorem sorted_ofList (entries : List (String × α)) : Sorted (ofList entries) :=
  sorted_foldl_insert entries List.Pairwise.nil

theorem Sorted.mapValues {entries : Table α} (sorted : Sorted entries) (f : α -> β) :
    Sorted (entries.mapValues f) :=
  List.Pairwise.map _ (fun _ _ before => before) sorted

end Table
end Reckoner
