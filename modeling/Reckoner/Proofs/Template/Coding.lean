import Reckoner.Proofs.Expr.Coding
import Reckoner.Template.Basic

/-!
# Templates written and read back

A template that has been read is read back from its value, only that a zero in one of
its expressions loses its sign.  What is written for an expression is marked as one
again, and what is written for data is not.
-/

namespace Reckoner

/-!
# Equality of values
-/

/-- Equality that compares doubles as such, and never takes an integer for a double. -/
def Number.same : Number -> Number -> Bool
  | .int a, .int b => a == b
  | .double a, .double b => a == b
  | _, _ => false

namespace Json

mutual

def same : Json -> Json -> Bool
  | .null, .null => true
  | .bool a, .bool b => a == b
  | .num a, .num b => a.same b
  | .str a, .str b => a == b
  | .arr as, .arr bs => sameItems as bs
  | .obj as, .obj bs => sameEntries as bs
  | _, _ => false

def sameItems : List Json -> List Json -> Bool
  | [], [] => true
  | a :: as, b :: bs => a.same b && sameItems as bs
  | _, _ => false

def sameEntries : List (String × Json) -> List (String × Json) -> Bool
  | [], [] => true
  | (k, a) :: as, (l, b) :: bs => k == l && a.same b && sameEntries as bs
  | _, _ => false

end

def isScalar : Json -> Bool
  | .arr _ => false
  | .obj _ => false
  | _ => true

theorem same_self_of_isScalar {value : Json} (hscalar : value.isScalar = true)
    (hvalue : value.isWellFormed = true) : value.same value = true := by
  cases value with
  | null => rfl
  | bool b => exact beq_self_eq_true b
  | num n =>
      cases n with
      | int k => exact beq_self_eq_true k
      | double x =>
          apply Float.beq_self_iff.mpr
          rintro rfl
          cases hvalue
  | str text => exact beq_self_eq_true text
  | arr _ | obj _ => cases hscalar

end Json

namespace Template

/-!
# Numbers and equality
-/

mutual

def numbers : Template -> List Float
  | .expr e => e.numbers
  | .list items => numbersOf items
  | .map entries => numbersUnder entries
  | .literal _ => []

def numbersOf : List Template -> List Float
  | [] => []
  | t :: rest => t.numbers ++ numbersOf rest

def numbersUnder : List (String × Template) -> List Float
  | [] => []
  | (_, t) :: rest => t.numbers ++ numbersUnder rest

end

mutual

def unsigned : Template -> Template
  | .expr e => .expr e.unsigned
  | .list items => .list (unsignedItems items)
  | .map entries => .map (unsignedEntries entries)
  | .literal value => .literal value

def unsignedItems : List Template -> List Template
  | [] => []
  | t :: rest => t.unsigned :: unsignedItems rest

def unsignedEntries : List (String × Template) -> List (String × Template)
  | [] => []
  | (name, t) :: rest => (name, t.unsigned) :: unsignedEntries rest

end

mutual

def same : Template -> Template -> Bool
  | .expr a, .expr b => a.same b
  | .list as, .list bs => sameItems as bs
  | .map as, .map bs => sameEntries as bs
  | .literal a, .literal b => a.same b
  | _, _ => false

def sameItems : List Template -> List Template -> Bool
  | [], [] => true
  | a :: as, b :: bs => a.same b && sameItems as bs
  | _, _ => false

def sameEntries : List (String × Template) -> List (String × Template) -> Bool
  | [], [] => true
  | (k, a) :: as, (l, b) :: bs => k == l && a.same b && sameEntries as bs
  | _, _ => false

end

mutual

theorem toJson_unsigned : ∀ t : Template, t.unsigned.toJson = t.toJson
  | .expr e => Expr.toJson_unsigned e
  | .list items => congrArg Json.arr (toItems_unsigned items)
  | .map entries => congrArg Json.obj (toEntries_unsigned entries)
  | .literal _ => rfl

theorem toItems_unsigned : ∀ ts : List Template, toItems (unsignedItems ts) = toItems ts
  | [] => rfl
  | t :: rest => by
      show t.unsigned.toJson :: toItems (unsignedItems rest) = t.toJson :: toItems rest
      rw [toJson_unsigned t, toItems_unsigned rest]

theorem toEntries_unsigned : ∀ ts : List (String × Template),
    toEntries (unsignedEntries ts) = toEntries ts
  | [] => rfl
  | (name, t) :: rest => by
      show (name, t.unsigned.toJson) :: toEntries (unsignedEntries rest) =
        (name, t.toJson) :: toEntries rest
      rw [toJson_unsigned t, toEntries_unsigned rest]

end

mutual

theorem unsigned_of_numbers : ∀ t : Template, (∀ x ∈ t.numbers, x ≠ -0.0) -> t.unsigned = t
  | .expr e, h => congrArg Template.expr (Expr.unsigned_of_numbers e h)
  | .list items, h => congrArg Template.list (unsignedItems_of_numbers items h)
  | .map entries, h => congrArg Template.map (unsignedEntries_of_numbers entries h)
  | .literal _, _ => rfl

theorem unsignedItems_of_numbers : ∀ ts : List Template,
    (∀ x ∈ numbersOf ts, x ≠ -0.0) -> unsignedItems ts = ts
  | [], _ => rfl
  | t :: rest, h => by
      show t.unsigned :: unsignedItems rest = t :: rest
      rw [unsigned_of_numbers t fun x hx => h x (List.mem_append_left _ hx),
        unsignedItems_of_numbers rest fun x hx => h x (List.mem_append_right _ hx)]

theorem unsignedEntries_of_numbers : ∀ ts : List (String × Template),
    (∀ x ∈ numbersUnder ts, x ≠ -0.0) -> unsignedEntries ts = ts
  | [], _ => rfl
  | (name, t) :: rest, h => by
      show (name, t.unsigned) :: unsignedEntries rest = (name, t) :: rest
      rw [unsigned_of_numbers t fun x hx => h x (List.mem_append_left _ hx),
        unsignedEntries_of_numbers rest fun x hx => h x (List.mem_append_right _ hx)]

end

/-!
# Reading templates
-/

section ParseAt

variable {depth : Nat} (h : depth ≤ Expr.maxNesting)

include h

theorem parseAt_arr (items : List Json) :
    parseAt depth (.arr items) = (parseItems (depth + 1) items).map .list := by
  unfold parseAt
  rw [if_neg (Nat.not_lt.mpr h)]

theorem parseAt_marked {entries : List (String × Json)} (hmarked : Expr.isMarked entries = true) :
    parseAt depth (.obj entries) = (Expr.ofJson (.obj entries)).map .expr := by
  unfold parseAt
  rw [if_neg (Nat.not_lt.mpr h)]
  exact if_pos hmarked

theorem parseAt_unmarked {entries : List (String × Json)}
    (hmarked : Expr.isMarked entries = false) :
    parseAt depth (.obj entries) = (parseEntries (depth + 1) entries).map .map := by
  unfold parseAt
  rw [if_neg (Nat.not_lt.mpr h)]
  simp only [hmarked]
  rfl

theorem parseAt_scalar {value : Json} (hscalar : value.isScalar = true) :
    parseAt depth value = .ok (.literal value) := by
  unfold parseAt
  rw [if_neg (Nat.not_lt.mpr h)]
  cases value with
  | arr _ | obj _ => cases hscalar
  | _ => rfl

end ParseAt

theorem parseItems_cons (depth : Nat) (item : Json) (rest : List Json) :
    parseItems depth (item :: rest) =
      (parseAt depth item).bind fun t =>
        (parseItems depth rest).bind fun ts => .ok (t :: ts) := by
  rw [parseItems]
  rfl

theorem parseEntries_cons (depth : Nat) (name : String) (value : Json)
    (rest : List (String × Json)) :
    parseEntries depth ((name, value) :: rest) =
      (parseAt depth value).bind fun t =>
        (parseEntries depth rest).bind fun ts => .ok ((name, t) :: ts) := by
  rw [parseEntries]
  rfl

theorem le_of_parseAt {depth : Nat} {value : Json} {t : Template}
    (h : parseAt depth value = .ok t) : depth ≤ Expr.maxNesting := by
  unfold parseAt at h
  split at h
  · cases h
  · omega

theorem cases_of_parseAt_obj {depth : Nat} {entries : List (String × Json)} {t : Template}
    (h : parseAt depth (.obj entries) = .ok t) :
    (∃ e, Expr.ofJson (.obj entries) = .ok e ∧ t = .expr e) ∨
      ∃ ts, Expr.isMarked entries = false ∧ parseEntries (depth + 1) entries = .ok ts ∧
        t = .map ts := by
  have hdepth := le_of_parseAt h
  cases hmarked : Expr.isMarked entries with
  | true =>
      rw [parseAt_marked hdepth hmarked] at h
      obtain ⟨e, he, hexpr⟩ := exists_of_map_eq_ok h
      exact .inl ⟨e, he, hexpr.symm⟩
  | false =>
      rw [parseAt_unmarked hdepth hmarked] at h
      obtain ⟨ts, hts, hmap⟩ := exists_of_map_eq_ok h
      exact .inr ⟨ts, rfl, hts, hmap.symm⟩

/-!
# Templates that have been read
-/

structure ReadsBackAt (t : Template) (depth : Nat) : Prop where
  wellFormed : t.toJson.isWellFormed = true
  read : parseAt depth t.toJson = .ok t.unsigned
  same : t.same t.unsigned = true

structure AllReadBackAt (ts : List Template) (depth : Nat) : Prop where
  wellFormed : Json.wellFormedItems (toItems ts) = true
  read : parseItems depth (toItems ts) = .ok (unsignedItems ts)
  same : sameItems ts (unsignedItems ts) = true

structure EntriesReadBackAt (ts : List (String × Template)) (depth : Nat)
    (entries : List (String × Json)) : Prop where
  wellFormed : Json.wellFormedEntries (toEntries ts) = true
  read : parseEntries depth (toEntries ts) = .ok (unsignedEntries ts)
  same : sameEntries ts (unsignedEntries ts) = true
  keys : Table.keys (toEntries ts) = Table.keys entries

theorem readsBackAt_of_scalar {value : Json} {depth : Nat} {t : Template}
    (hvalue : value.isWellFormed = true) (hscalar : value.isScalar = true)
    (h : parseAt depth value = .ok t) : t.ReadsBackAt depth := by
  have hread := parseAt_scalar (le_of_parseAt h) hscalar
  rw [hread] at h
  cases h
  exact ⟨hvalue, hread, Json.same_self_of_isScalar hscalar hvalue⟩

theorem AllReadBackAt.cons {t : Template} {ts : List Template} {depth : Nat}
    (ht : t.ReadsBackAt depth) (hts : AllReadBackAt ts depth) :
    AllReadBackAt (t :: ts) depth := by
  constructor
  · exact Bool.and_eq_true_iff.mpr ⟨ht.wellFormed, hts.wellFormed⟩
  · show parseItems depth (t.toJson :: toItems ts) = _
    rw [parseItems_cons, ht.read, hts.read]
    rfl
  · exact Bool.and_eq_true_iff.mpr ⟨ht.same, hts.same⟩

theorem EntriesReadBackAt.cons (name : String) (value : Json) {t : Template}
    {ts : List (String × Template)} {depth : Nat} {entries : List (String × Json)}
    (ht : t.ReadsBackAt depth) (hts : EntriesReadBackAt ts depth entries) :
    EntriesReadBackAt ((name, t) :: ts) depth ((name, value) :: entries) := by
  constructor
  · exact Bool.and_eq_true_iff.mpr ⟨ht.wellFormed, hts.wellFormed⟩
  · show parseEntries depth ((name, t.toJson) :: toEntries ts) = _
    rw [parseEntries_cons, ht.read, hts.read]
    rfl
  · show (name == name && t.same t.unsigned && sameEntries ts (unsignedEntries ts)) = true
    rw [beq_self_eq_true, ht.same, hts.same]
    rfl
  · exact congrArg (name :: ·) hts.keys

theorem ReadsBackAt.expr {e : Expr} {depth : Nat} (hdepth : depth ≤ Expr.maxNesting)
    (he : e.FitsAt 0) (hmarked : ∃ written, e.toJson = .obj written ∧
      Expr.isMarked written = true) : (Template.expr e).ReadsBackAt depth := by
  obtain ⟨written, hwritten, hmarked⟩ := hmarked
  refine ⟨Expr.isWellFormed_toJson e he.finite, ?_, Expr.same_unsigned e he.finite⟩
  -- the nesting of an expression counts from its own root
  have hread := Expr.parseAt_toJson e he
  show parseAt depth e.toJson = _
  rw [hwritten] at hread ⊢
  rw [parseAt_marked hdepth hmarked]
  exact congrArg (Except.map Template.expr) hread

theorem AllReadBackAt.list {ts : List Template} {depth : Nat} (hdepth : depth ≤ Expr.maxNesting)
    (h : AllReadBackAt ts (depth + 1)) : (Template.list ts).ReadsBackAt depth := by
  refine ⟨h.wellFormed, ?_, h.same⟩
  show parseAt depth (.arr (toItems ts)) = _
  rw [parseAt_arr hdepth, h.read]
  rfl

theorem EntriesReadBackAt.map {ts : List (String × Template)} {depth : Nat}
    {entries : List (String × Json)} (hdepth : depth ≤ Expr.maxNesting)
    (hentries : Table.Sorted entries) (hmarked : Expr.isMarked entries = false)
    (h : EntriesReadBackAt ts (depth + 1) entries) : (Template.map ts).ReadsBackAt depth := by
  have hsorted : Table.Sorted (toEntries ts) := by
    rw [Table.sorted_iff_keys, h.keys, ← Table.sorted_iff_keys]
    exact hentries
  -- the names alone decide what is an expression, and they are kept
  have hunmarked : Expr.isMarked (toEntries ts) = false := by
    rw [← hmarked]
    unfold Expr.isMarked
    rw [Table.contains_eq_keys, Table.contains_eq_keys, h.keys, Table.contains_eq_keys,
      Table.contains_eq_keys]
  refine ⟨?_, ?_, h.same⟩
  · exact Bool.and_eq_true_iff.mpr ⟨decide_eq_true hsorted, h.wellFormed⟩
  · show parseAt depth (.obj (toEntries ts)) = _
    rw [parseAt_unmarked hdepth hunmarked, h.read]
    rfl

mutual

theorem readsBackAt_of_parseAt : ∀ (value : Json) {depth : Nat} {t : Template},
    value.isWellFormed = true -> parseAt depth value = .ok t -> t.ReadsBackAt depth
  | .null, _, _, hvalue, h => readsBackAt_of_scalar hvalue rfl h
  | .bool _, _, _, hvalue, h => readsBackAt_of_scalar hvalue rfl h
  | .num _, _, _, hvalue, h => readsBackAt_of_scalar hvalue rfl h
  | .str _, _, _, hvalue, h => readsBackAt_of_scalar hvalue rfl h
  | .arr items, depth, t, hvalue, h => by
      have hdepth := le_of_parseAt h
      rw [parseAt_arr hdepth] at h
      obtain ⟨ts, hitems, rfl⟩ := exists_of_map_eq_ok h
      exact (allReadBackAt_of_parseItems items hvalue hitems).list hdepth
  | .obj entries, depth, t, hvalue, h => by
      have hdepth := le_of_parseAt h
      rcases Bool.and_eq_true_iff.mp hvalue with ⟨hsorted, hentries⟩
      rcases cases_of_parseAt_obj h with ⟨e, he, rfl⟩ | ⟨ts, hmarked, hts, rfl⟩
      · exact .expr hdepth (Expr.fitsAt_of_parseAt _ hvalue he) (Expr.isMarked_of_parseAt_obj he)
      · exact (entriesReadBackAt_of_parseEntries entries hentries hts).map hdepth
          (of_decide_eq_true hsorted) hmarked

theorem allReadBackAt_of_parseItems : ∀ (items : List Json) {depth : Nat} {ts : List Template},
    Json.wellFormedItems items = true -> parseItems depth items = .ok ts ->
    AllReadBackAt ts depth
  | [], _, _, _, h => by
      cases h
      exact ⟨rfl, rfl, rfl⟩
  | item :: rest, depth, ts, hitems, h => by
      rcases Bool.and_eq_true_iff.mp hitems with ⟨hitem, hrest⟩
      rw [parseItems_cons] at h
      obtain ⟨t, hhead, h⟩ := exists_of_bind_eq_ok h
      obtain ⟨tail, htail, h⟩ := exists_of_bind_eq_ok h
      cases h
      exact .cons (readsBackAt_of_parseAt item hitem hhead)
        (allReadBackAt_of_parseItems rest hrest htail)

theorem entriesReadBackAt_of_parseEntries : ∀ (entries : List (String × Json)) {depth : Nat}
    {ts : List (String × Template)}, Json.wellFormedEntries entries = true ->
    parseEntries depth entries = .ok ts -> EntriesReadBackAt ts depth entries
  | [], _, _, _, h => by
      cases h
      exact ⟨rfl, rfl, rfl, rfl⟩
  | (name, value) :: rest, depth, ts, hentries, h => by
      rcases Bool.and_eq_true_iff.mp hentries with ⟨hvalue, hrest⟩
      rw [parseEntries_cons] at h
      obtain ⟨t, hhead, h⟩ := exists_of_bind_eq_ok h
      obtain ⟨tail, htail, h⟩ := exists_of_bind_eq_ok h
      cases h
      exact .cons name value (readsBackAt_of_parseAt value hvalue hhead)
        (entriesReadBackAt_of_parseEntries rest hrest htail)

end

/-- Only null is written as null. -/
theorem eq_null_of_toJson {depth : Nat} {value : Json} {t : Template}
    (h : parseAt depth value = .ok t) (hnull : t.toJson = .null) :
    value = .null ∧ t = .literal .null := by
  have hdepth := le_of_parseAt h
  cases value with
  | null | bool _ | num _ | str _ =>
      rw [parseAt_scalar hdepth rfl] at h
      cases h
      exact ⟨hnull, congrArg Template.literal hnull⟩
  | arr items =>
      rw [parseAt_arr hdepth] at h
      obtain ⟨ts, _, rfl⟩ := exists_of_map_eq_ok h
      cases hnull
  | obj entries =>
      rcases cases_of_parseAt_obj h with ⟨e, he, rfl⟩ | ⟨ts, _, _, rfl⟩
      · obtain ⟨written, hwritten, _⟩ := Expr.isMarked_of_parseAt_obj he
        change e.toJson = .null at hnull
        rw [hwritten] at hnull
        cases hnull
      · cases hnull

/-!
# Decoding
-/

open Json Decoder

theorem sorted_toJson {t : Template} {depth : Nat} (h : t.ReadsBackAt depth) :
    t.toJson.sorted = t.toJson :=
  sorted_of_isWellFormed _ h.wellFormed

theorem fromValue_toJson {t : Template} (h : t.ReadsBackAt 0) :
    fromValue decoder t.toJson = .ok t.unsigned :=
  fromValue_via h.wellFormed h.read

end Template
end Reckoner
