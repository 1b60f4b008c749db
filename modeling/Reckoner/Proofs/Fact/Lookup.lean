import Reckoner.Proofs.Fact.Path
import Reckoner.Proofs.Fact.RoundTrip

/-!
# Look-ups one after another

What is looked up may be kept as a value and looked into again.  Keeping it changes how
its numbers are written and makes null of nothing, and neither changes which
steps lead on.  So two look-ups find what one finds by the joined path.
-/

namespace Reckoner

namespace Path

/-!
# Joined paths
-/

theorem segments_join (p q : String) :
    segments (p ++ "." ++ q) = segments p ++ segments q := by
  have htext : (p ++ "." ++ q).toList = p.toList ++ '.' :: q.toList := by
    simp
  rw [segments_eq_splitOn, segments_eq_splitOn, segments_eq_splitOn, htext,
    List.splitOn_append_cons_self, List.map_append]

theorem segments_of_no_point {name : String} (h : '.' ∉ name.toList) : segments name = [name] := by
  rw [segments_eq_splitOn, List.splitOn_eq_singleton h, List.map_singleton, String.ofList_toList]

theorem walk?_segments_null (path : String) : walk? (segments path) .null = none := by
  cases hsegments : segments path with
  | nil => exact absurd hsegments (segments_ne_nil path)
  | cons segment rest => rfl

end Path

namespace Fact

/-!
# Values that are kept
-/

theorem toItems_ofItems (items : List Json) :
    toItems (ofItems items) = items.map fun item => (ofJson item).toJson := by
  induction items with
  | nil => rfl
  | cons item rest ih =>
      unfold ofItems toItems
      rw [ih, List.map_cons]

theorem toEntries_ofEntries (entries : List (String × Json)) :
    toEntries (ofEntries entries) =
      Table.mapValues (fun value => (ofJson value).toJson) entries := by
  induction entries with
  | nil => rfl
  | cons entry rest ih =>
      unfold ofEntries toEntries
      rw [ih]
      rfl

end Fact

namespace Path

theorem step?_kept (segment : String) (value : Json) :
    step? segment (Fact.ofJson value).toJson =
      (step? segment value).map fun child => (Fact.ofJson child).toJson := by
  cases value with
  | obj entries =>
      show Table.get? (Fact.toEntries (Fact.ofEntries entries)) segment = _
      rw [Fact.toEntries_ofEntries, Table.get?_mapValues]
      rfl
  | arr items =>
      show (index? segment).bind (fun i => (Fact.toItems (Fact.ofItems items))[i]?) =
        ((index? segment).bind fun i => items[i]?).map _
      rw [Fact.toItems_ofItems]
      simp only [List.getElem?_map, Option.map_bind, Function.comp_def]
  | num n =>
      -- a number is shown as a number or as null, and no segment leads on from either
      show step? segment (.ofNumber n.toFloat) = none
      unfold Json.ofNumber Json.ofFloat
      split
      · split <;> rfl
      · split <;> rfl
  | _ => rfl

theorem walk?_kept (segments : List String) (value : Json) :
    walk? segments (Fact.ofJson value).toJson =
      (walk? segments value).map fun node => (Fact.ofJson node).toJson := by
  induction segments generalizing value with
  | nil => rfl
  | cons segment rest ih =>
      unfold walk?
      rw [step?_kept]
      cases step? segment value with
      | none => rfl
      | some child => exact ih child

end Path

namespace Json

/-!
# One more entry
-/

theorem lookup_insert_self {name : String} (hname : name ≠ "") (hpoint : '.' ∉ name.toList)
    (entries : Table Json) (value : Json) :
    (Json.obj (entries.insert name value)).lookup name = Fact.ofJson value := by
  have hstep : Path.step? name (.obj (entries.insert name value)) = some value :=
    Table.get?_insert_self entries name value
  rw [lookup_eq hname, Path.segments_of_no_point hpoint]
  unfold Path.walk?
  rw [hstep]
  rfl

theorem lookup_insert_of_ne {path name : String} (hpath : path ≠ "")
    (hfirst : (Path.segments path).head? ≠ some name) (entries : Table Json) (value : Json) :
    (Json.obj (entries.insert name value)).lookup path = (Json.obj entries).lookup path := by
  rw [lookup_eq hpath, lookup_eq hpath]
  cases hsegments : Path.segments path with
  | nil => exact absurd hsegments (Path.segments_ne_nil path)
  | cons segment rest =>
      have hne : name ≠ segment := by
        rintro rfl
        rw [hsegments] at hfirst
        exact hfirst rfl
      have hstep : Path.step? segment (.obj (entries.insert name value)) =
          Path.step? segment (.obj entries) := Table.get?_insert_of_ne entries value hne
      unfold Path.walk?
      rw [hstep]

/-!
# One look-up after another
-/

/-- Looking further into the value that shows what was looked up gives what the joined path gives,
up to the signs of zeros. -/
theorem lookup_lookup (facts : Document) {p q : String} (hp : p ≠ "") (hq : q ≠ "") :
    (facts.value.lookup (p ++ "." ++ q)).strictEq ((facts.value.lookup p).toJson.lookup q) =
      true := by
  have hjoined : p ++ "." ++ q ≠ "" := by simp
  rw [lookup_eq hjoined, lookup_eq hq, lookup_eq hp, Path.segments_join, Path.walk?_append]
  cases hnode : Path.walk? (Path.segments p) facts.value with
  | none =>
      show Fact.absent.strictEq
        (((Path.walk? (Path.segments q) .null).map Fact.ofJson).getD .absent) = true
      rw [Path.walk?_segments_null]
      rfl
  | some node =>
      show (((Path.walk? (Path.segments q) node).map Fact.ofJson).getD .absent).strictEq
        (((Path.walk? (Path.segments q) (Fact.ofJson node).toJson).map Fact.ofJson).getD
          .absent) = true
      rw [Path.walk?_kept]
      have hwellFormed := isWellFormed_of_walk facts.wellFormed hnode
      cases hfound : Path.walk? (Path.segments q) node with
      | none => rfl
      | some found => exact Fact.strictEq_reread found (isWellFormed_of_walk hwellFormed hfound)

/-- Below names that are empty, a zero with a sign and an integer that no double is, and a path
that leads nowhere. -/
theorem lookup_lookup_zero :
    let value : Json := .obj [
      ("", .obj [("", .arr [.num (.double (-0.0)), .num (.int 9007199254740993)])]),
      ("a", .null)]
    value.isWellFormed = true ∧
      (value.lookup ".").toJson = .arr [.num (.int 0), .num (.double 9007199254740992)] ∧
      (value.lookup ("." ++ "." ++ "0")).strictEq ((value.lookup ".").toJson.lookup "0") = true ∧
      (value.lookup ("." ++ "." ++ "1")).strictEq ((value.lookup ".").toJson.lookup "1") = true ∧
      (value.lookup ("a.b" ++ "." ++ ".")).strictEq ((value.lookup "a.b").toJson.lookup ".") =
        true := by
  intro value
  have hvalue : value.isWellFormed = true := by decide +kernel
  refine ⟨hvalue, rfl, ?_, ?_, ?_⟩
  · exact lookup_lookup ⟨value, hvalue⟩ (by decide) (by decide)
  · exact lookup_lookup ⟨value, hvalue⟩ (by decide) (by decide)
  · exact lookup_lookup ⟨value, hvalue⟩ (by decide) (by decide)

end Json
end Reckoner
