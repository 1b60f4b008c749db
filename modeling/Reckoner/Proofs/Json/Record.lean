import Reckoner.Proofs.Json.Reading

/-!
# Records written and read back

A record shows its fields in the order of its table, and a value lists them in the
order of their names.  Reading takes the fields as the value lists them, and every
field that is shown makes its own change.
-/

namespace Reckoner

namespace Json

open Decoder

theorem sortedEntries_eq_mapValues (entries : List (String × Json)) :
    sortedEntries entries = Table.mapValues sorted entries := by
  induction entries with
  | nil => rfl
  | cons entry rest ih =>
      show (entry.1, entry.2.sorted) :: sortedEntries rest = _
      rw [ih]
      rfl

theorem sortedItems_eq_map (items : List Json) : sortedItems items = items.map sorted := by
  induction items with
  | nil => rfl
  | cons item rest ih =>
      show item.sorted :: sortedItems rest = _
      rw [ih]
      rfl

theorem fromValue_list_sorted {α β : Type} {inner : Decoder α} {encode : β -> Json} (read : β -> α)
    {xs : List β} (h : ∀ x ∈ xs, fromValue inner (encode x).sorted = .ok (read x)) :
    fromValue (Decoder.list inner) (Json.arr (xs.map encode)).sorted = .ok (xs.map read) := by
  show fromValue (Decoder.list inner) (.arr (sortedItems (xs.map encode))) = _
  rw [sortedItems_eq_map, List.map_map]
  exact fromValue_list_map read h

/-!
# Fields
-/

namespace Field

variable {ρ : Type}

def copy (f : Field ρ) (shown record : ρ) : Except DecodeError ρ :=
  match f.write shown with
  | none => .ok record
  | some value => (fromValue f.read value.sorted).map fun change => change record

theorem copy_of_none {f : Field ρ} {shown record : ρ} (h : f.write shown = none) :
    f.copy shown record = .ok record := by
  unfold copy
  rw [h]

theorem copy_of_some {f : Field ρ} {shown record : ρ} {value : Json}
    (h : f.write shown = some value) :
    f.copy shown record = (fromValue f.read value.sorted).map fun change => change record := by
  unfold copy
  rw [h]

section Kinds

variable {α : Type} {name : String} {required : Bool} {decoder : Decoder α} {encode : α -> Json}
  {shown record : ρ}

theorem copy_shown {get : ρ -> α} (set : α -> ρ -> ρ) {read : α}
    (h : fromValue decoder (encode (get shown)).sorted = .ok read) :
    (Field.shown name required decoder encode get set).copy shown record =
      .ok (set read record) := by
  rw [copy_of_some rfl]
  show ((fromValue decoder (encode (get shown)).sorted).map set).map _ = _
  rw [h]
  rfl

theorem copy_optional {get : ρ -> Option α} (set : Option α -> ρ -> ρ) (read : α -> α)
    (h : ∀ a, get shown = some a ->
      (encode a).sorted ≠ .null ∧ fromValue decoder (encode a).sorted = .ok (read a))
    (hblank : set none record = record) :
    (Field.optional name decoder encode get set).copy shown record =
      .ok (set ((get shown).map read) record) := by
  have hwrite : (Field.optional name decoder encode get set).write shown =
      (get shown).map encode := rfl
  cases hget : get shown with
  | none =>
      rw [hget] at hwrite
      rw [copy_of_none hwrite]
      exact congrArg Except.ok hblank.symm
  | some a =>
      -- null would be read as a field that is missing
      obtain ⟨hnull, hread⟩ := h a hget
      rw [hget] at hwrite
      rw [copy_of_some hwrite]
      show ((fromValue (Decoder.optional decoder) (encode a).sorted).map set).map _ = _
      rw [fromValue_optional hnull, hread]
      rfl

theorem copy_listing {get : ρ -> List α} (set : List α -> ρ -> ρ) (read : α -> α)
    (h : ∀ a ∈ get shown, fromValue decoder (encode a).sorted = .ok (read a))
    (hblank : set [] record = record) :
    (Field.listing name decoder encode get set).copy shown record =
      .ok (set ((get shown).map read) record) := by
  have hwrite : (Field.listing name decoder encode get set).write shown =
      if (get shown).isEmpty then none else some (.arr ((get shown).map encode)) := rfl
  cases hget : get shown with
  | nil =>
      rw [hget] at hwrite
      rw [copy_of_none hwrite]
      exact congrArg Except.ok hblank.symm
  | cons a rest =>
      rw [hget] at hwrite
      rw [copy_of_some hwrite]
      show ((fromValue (Decoder.list decoder)
        (Json.arr ((a :: rest).map encode)).sorted).map set).map _ = _
      rw [← hget, fromValue_list_sorted read h]
      rfl

theorem of_read_shown {get : ρ -> α} {set : α -> ρ -> ρ} {value : Json} {change : ρ -> ρ}
    (h : fromValue (Field.shown name required decoder encode get set).read value = .ok change) :
    ∃ a, fromValue decoder value = .ok a ∧ change = set a := by
  obtain ⟨a, hread, hchange⟩ := exists_of_map_eq_ok h
  exact ⟨a, hread, hchange.symm⟩

theorem of_read_optional {get : ρ -> Option α} {set : Option α -> ρ -> ρ} {value : Json}
    {change : ρ -> ρ}
    (h : fromValue (Field.optional name decoder encode get set).read value = .ok change) :
    ∃ a?, (∀ a, a? = some a -> value ≠ .null ∧ fromValue decoder value = .ok a) ∧
      change = set a? := by
  obtain ⟨a?, hread, hchange⟩ := exists_of_map_eq_ok h
  refine ⟨a?, ?_, hchange.symm⟩
  rintro a rfl
  exact of_optional hread

theorem of_read_listing {get : ρ -> List α} {set : List α -> ρ -> ρ} {value : Json}
    {change : ρ -> ρ}
    (h : fromValue (Field.listing name decoder encode get set).read value = .ok change) :
    ∃ as, change = set as := by
  obtain ⟨as, _, hchange⟩ := exists_of_map_eq_ok h
  exact ⟨as, hchange.symm⟩

end Kinds

end Field

/-!
# Reading what a record shows
-/

namespace Record

variable {ρ : Type}

def entries (fields : List (Field ρ)) (shown : ρ) : Table Json :=
  fields.filterMap fun f => (f.write shown).map fun value => (f.name, value.sorted)

def copy (fields : List (Field ρ)) (shown record : ρ) : Except DecodeError ρ :=
  fields.foldlM (fun record f => f.copy shown record) record

section Entries

variable {f : Field ρ} {shown : ρ} (rest : List (Field ρ))

theorem entries_cons_of_none (h : f.write shown = none) :
    entries (f :: rest) shown = entries rest shown := by
  apply List.filterMap_cons_none
  rw [h]
  rfl

theorem entries_cons_of_some {value : Json} (h : f.write shown = some value) :
    entries (f :: rest) shown = (f.name, value.sorted) :: entries rest shown := by
  apply List.filterMap_cons_some
  rw [h]
  rfl

theorem copy_cons (record : ρ) :
    copy (f :: rest) shown record =
      (f.copy shown record).bind fun record => copy rest shown record := rfl

theorem copy_cons_of_ok {record next : ρ} (h : f.copy shown record = .ok next) :
    copy (f :: rest) shown record = copy rest shown next := by
  rw [copy_cons, h]
  rfl

theorem mem_entries {fields : List (Field ρ)} (hf : f ∈ fields)
    (h : (f.write shown).isSome = true) : f.name ∈ (entries fields shown).keys := by
  obtain ⟨value, hvalue⟩ := Option.isSome_iff_exists.mp h
  apply List.mem_map.mpr
  refine ⟨(f.name, value.sorted), List.mem_filterMap.mpr ⟨f, hf, ?_⟩, rfl⟩
  rw [hvalue]
  rfl

end Entries

/-!
# Reading one entry
-/

theorem ofEntries_cons (name : String) (value : Json) (rest : List (String × Json)) :
    Draft.ofEntries ((name, value) :: rest) =
      (.ok name, Draft.ofJson value) :: Draft.ofEntries rest := rfl

section ReadEntries

variable {r : Record ρ} {name : String} {seen : List String} (value : Json)
  (rest : List (String × Json)) (record : ρ)

theorem readEntries_of_unknown (hfind : r.fields.find? (·.name = name) = none) :
    r.readEntries .value (Draft.ofEntries ((name, value) :: rest)) seen record =
      (ended (Draft.ofJson value).skipFault?).bind fun _ =>
        r.readEntries .value (Draft.ofEntries rest) seen record := by
  rw [ofEntries_cons, readEntries]
  simp only [orFault, Except.mapError, bind, Except.bind, hfind]

theorem readEntries_of_repeated {f : Field ρ}
    (hfind : r.fields.find? (·.name = name) = some f) (hseen : seen.contains name = true) :
    r.readEntries .value (Draft.ofEntries ((name, value) :: rest)) seen record =
      .error (.data (.repeatedField name)) := by
  rw [ofEntries_cons, readEntries]
  simp only [orFault, Except.mapError, bind, Except.bind, hfind, hseen]
  rfl

theorem readEntries_of_new {f : Field ρ}
    (hfind : r.fields.find? (·.name = name) = some f) (hseen : seen.contains name = false) :
    r.readEntries .value (Draft.ofEntries ((name, value) :: rest)) seen record =
      (fromValue f.read value).bind fun change =>
        r.readEntries .value (Draft.ofEntries rest) (name :: seen) (change record) := by
  rw [ofEntries_cons, readEntries]
  simp only [orFault, Except.mapError, bind, Except.bind, hfind, hseen]
  rfl

end ReadEntries

structure Ordered (r : Record ρ) (order : List (Field ρ)) : Prop where
  perm : r.fields.Perm order
  sorted : order.Pairwise fun f g => f.name < g.name
  required : ∀ f ∈ r.fields, f.required = true -> ∀ shown, (f.write shown).isSome = true

theorem encode_congr {r : Record ρ} {a b : ρ} (h : ∀ f ∈ r.fields, f.write a = f.write b) :
    r.encode a = r.encode b := by
  unfold encode
  congr 1
  apply List.filterMap_congr
  intro f hf
  rw [h f hf]

namespace Ordered

variable {r : Record ρ} {order : List (Field ρ)}

theorem of_indices (indices : List (Fin r.fields.length))
    (hperm : (List.finRange r.fields.length).Perm indices)
    (hsorted : (indices.map fun i => (r.fields.get i).name).Pairwise (· < ·))
    (hrequired : ∀ f ∈ r.fields, f.required = true -> ∀ shown, (f.write shown).isSome = true) :
    r.Ordered (indices.map r.fields.get) := by
  refine ⟨?_, List.pairwise_map.mpr (List.pairwise_map.mp hsorted), hrequired⟩
  have hfields := hperm.map r.fields.get
  rw [List.map_get_finRange] at hfields
  exact hfields

theorem distinct (h : r.Ordered order) : r.fields.Pairwise fun f g => f.name ≠ g.name := by
  apply h.perm.symm.pairwise _ Ne.symm
  apply h.sorted.imp
  intro f g hbefore heq
  rw [heq] at hbefore
  exact String.lt_irrefl g.name hbefore

theorem sorted_encode (h : r.Ordered order) (shown : ρ) :
    (r.encode shown).sorted = .obj (entries order shown) := by
  have hentries : Table.mapValues Json.sorted (r.fields.filterMap fun field =>
      (field.write shown).map fun value => (field.name, value)) = entries r.fields shown := by
    unfold Table.mapValues entries
    rw [List.map_filterMap]
    apply List.filterMap_congr
    intro f _
    rw [Option.map_map]
    rfl
  show Json.obj (Table.ofList (sortedEntries _)) = _
  rw [sortedEntries_eq_mapValues, hentries]
  congr 1
  apply Table.ofList_of_perm (h.perm.filterMap _)
  apply h.sorted.filterMap
  intro f g hbefore a ha b hb
  obtain ⟨_, _, rfl⟩ := Option.map_eq_some_iff.mp ha
  obtain ⟨_, _, rfl⟩ := Option.map_eq_some_iff.mp hb
  exact hbefore

theorem find?_name (h : r.Ordered order) {f : Field ρ} (hf : f ∈ r.fields) :
    r.fields.find? (·.name = f.name) = some f := by
  have hdistinct := h.distinct
  generalize r.fields = fields at hf hdistinct ⊢
  induction fields with
  | nil => cases hf
  | cons head rest ih =>
      rcases List.mem_cons.mp hf with rfl | hmem
      · exact List.find?_cons_of_pos (decide_eq_true rfl)
      · have hne : head.name ≠ f.name := (List.pairwise_cons.mp hdistinct).1 f hmem
        rw [List.find?_cons_of_neg (by simpa using hne)]
        exact ih hmem (List.pairwise_cons.mp hdistinct).2

theorem readEntries_entries (h : r.Ordered order) (shown : ρ) {fields : List (Field ρ)}
    (hmem : ∀ f ∈ fields, f ∈ r.fields) (hsorted : fields.Pairwise fun f g => f.name < g.name)
    {seen : List String} (hseen : ∀ f ∈ fields, f.name ∉ seen) (record : ρ) :
    r.readEntries .value (Draft.ofEntries (entries fields shown)) seen record =
      (copy fields shown record).map fun record =>
        ((entries fields shown).keys.reverse ++ seen, record) := by
  -- names come in order, so no field that is left has been seen
  induction fields generalizing seen record with
  | nil => rfl
  | cons f rest ih =>
      have hrest : ∀ g ∈ rest, g ∈ r.fields := fun g hg => hmem g (List.mem_cons_of_mem f hg)
      obtain ⟨hlater, hsortedRest⟩ := List.pairwise_cons.mp hsorted
      rw [copy_cons]
      cases hwrite : f.write shown with
      | none =>
          rw [entries_cons_of_none rest hwrite, Field.copy_of_none hwrite]
          exact ih hrest hsortedRest (fun g hg => hseen g (List.mem_cons_of_mem f hg)) record
      | some value =>
          have hnew : seen.contains f.name = false := by
            rw [List.contains_eq_mem]
            exact decide_eq_false (hseen f List.mem_cons_self)
          have hunseen : ∀ g ∈ rest, g.name ∉ f.name :: seen := by
            intro g hg hin
            rcases List.mem_cons.mp hin with heq | hin
            · have hbefore := hlater g hg
              rw [heq] at hbefore
              exact String.lt_irrefl f.name hbefore
            · exact hseen g (List.mem_cons_of_mem f hg) hin
          rw [entries_cons_of_some rest hwrite, Field.copy_of_some hwrite,
            readEntries_of_new _ _ _ (h.find?_name (hmem f List.mem_cons_self)) hnew]
          cases fromValue f.read value.sorted with
          | error e => rfl
          | ok change =>
              have hnames : (Table.keys ((f.name, value.sorted) :: entries rest shown)).reverse ++
                  seen = (entries rest shown).keys.reverse ++ f.name :: seen := by
                simp [Table.keys]
              rw [hnames]
              exact ih hrest hsortedRest hunseen (change record)

/-- What a record shows is read as the blank record with all fields copied. -/
theorem fromValue_encode (h : r.Ordered order) (shown : ρ) :
    fromValue r.decoder (r.encode shown).sorted = copy order shown r.blank := by
  have hmem : ∀ f ∈ order, f ∈ r.fields := fun f hf => h.perm.symm.subset hf
  have hseen : ∀ f ∈ order, f.name ∉ [] := fun f _ => List.not_mem_nil
  have hread := h.readEntries_entries shown hmem h.sorted hseen r.blank
  rw [h.sorted_encode]
  show (r.readEntries .value (Draft.ofEntries (entries order shown)) [] r.blank >>= fun read => _)
    = _
  rw [hread]
  cases copy order shown r.blank with
  | error e => rfl
  | ok record =>
      have hnone : (r.fields.find? fun f => f.required &&
          !((entries order shown).keys.reverse ++ []).contains f.name) = none := by
        apply List.find?_eq_none.mpr
        intro f hf hmissing
        rcases Bool.and_eq_true_iff.mp hmissing with ⟨hrequired, hunseen⟩
        have hseen := mem_entries (h.perm.subset hf) (h.required f hf hrequired shown)
        simp [hseen] at hunseen
      simp only [Except.map, bind, Except.bind, ended, hnone]
      rfl

end Ordered

/-!
# What has been read
-/

/-- Whatever value of a document is read for a field, the change keeps a property of records. -/
def Keeps (r : Record ρ) (Inv : ρ -> Prop) : Prop :=
  ∀ f ∈ r.fields, ∀ value : Json, value.isWellFormed = true -> ∀ change,
    fromValue f.read value = .ok change -> ∀ record, Inv record -> Inv (change record)

section Invariant

variable {r : Record ρ} {Inv : ρ -> Prop}

theorem of_readEntries (hread : r.Keeps Inv) {fields : List (String × Json)}
    (hfields : wellFormedEntries fields = true) {seen seen' : List String} {record record' : ρ}
    (hrecord : Inv record)
    (h : r.readEntries .value (Draft.ofEntries fields) seen record = .ok (seen', record')) :
    Inv record' := by
  induction fields generalizing seen record with
  | nil =>
      cases h
      exact hrecord
  | cons field rest ih =>
      rcases Bool.and_eq_true_iff.mp hfields with ⟨hfield, hrest⟩
      cases hfind : r.fields.find? (·.name = field.1) with
      | none =>
          rw [readEntries_of_unknown _ _ _ hfind] at h
          obtain ⟨_, _, h⟩ := exists_of_bind_eq_ok h
          exact ih hrest hrecord h
      | some f =>
          cases hrepeated : seen.contains field.1 with
          | true =>
              rw [readEntries_of_repeated _ _ _ hfind hrepeated] at h
              cases h
          | false =>
              rw [readEntries_of_new _ _ _ hfind hrepeated] at h
              obtain ⟨change, hchange, h⟩ := exists_of_bind_eq_ok h
              have hf := List.mem_of_find?_eq_some hfind
              exact ih hrest (hread f hf field.2 hfield change hchange record hrecord) h

theorem of_readItems (hread : r.Keeps Inv) {count : Nat} {fields : List (Field ρ)}
    (hmem : ∀ f ∈ fields, f ∈ r.fields) {items : List Json}
    (hitems : wellFormedItems items = true) {index : Nat} {record record' : ρ}
    (hrecord : Inv record)
    (h : r.readItems .value count none fields (Draft.ofItems items) index record = .ok record') :
    Inv record' := by
  -- a record may be listed without names, and then the last fields may be left out
  induction fields generalizing items index record with
  | nil =>
      cases items with
      | nil =>
          cases h
          exact hrecord
      | cons item rest => cases h
  | cons f fields ih =>
      have hfields : ∀ g ∈ fields, g ∈ r.fields :=
        fun g hg => hmem g (List.mem_cons_of_mem f hg)
      cases items with
      | nil =>
          change (if f.required then _ else
            r.readItems .value count none fields (Draft.ofItems []) (index + 1) record) = _ at h
          cases hrequired : f.required with
          | true =>
              rw [hrequired] at h
              cases h
          | false =>
              rw [hrequired] at h
              exact ih hfields hitems hrecord h
      | cons item rest =>
          rcases Bool.and_eq_true_iff.mp hitems with ⟨hitem, hrest⟩
          change ((fromValue f.read item).bind fun change =>
            r.readItems .value count none fields (Draft.ofItems rest) (index + 1)
              (change record)) = _ at h
          obtain ⟨change, hchange, h⟩ := exists_of_bind_eq_ok h
          have hf := hmem f List.mem_cons_self
          exact ih hfields hrest (hread f hf item hitem change hchange record hrecord) h

/-- What every field keeps is kept by reading a whole record. -/
theorem of_decoder (hread : r.Keeps Inv) (hblank : Inv r.blank) {value : Json}
    (hvalue : value.isWellFormed = true) {record : ρ}
    (h : fromValue r.decoder value = .ok record) : Inv record := by
  cases value with
  | arr items => exact of_readItems hread (fun f hf => hf) hvalue hblank h
  | obj fields =>
      obtain ⟨read, hentries, h⟩ := exists_of_bind_eq_ok h
      have hkept := of_readEntries hread (Bool.and_eq_true_iff.mp hvalue).2 hblank hentries
      simp only [ended] at h
      split at h
      · cases h
      · cases h
        exact hkept
  | _ => cases h

end Invariant
end Record

end Json
end Reckoner
