import Reckoner.Proofs.Fact.Equality

/-!
# Facts shown and read back

A fact is shown as a value, and the value is a fact again.  It differs from the first
fact where that one has something absent, a number that is not finite or the sign of a
zero.  Of these only the numbers that are not finite make a loose difference, and none
of them is there in a fact that comes from a document.
-/

namespace Reckoner

namespace Fact

/-!
# Numbers
-/

theorem ofJson_ofNumber (n : Float) :
    ofJson (.ofNumber n) = if n.isFinite then .num (Number.unsigned n) else .null := by
  cases hn : n.isFinite with
  | true => exact ofJson_ofNumber_of_finite hn
  | false =>
      rw [Json.ofNumber_eq_null hn]
      rfl

/-- What is not finite is shown as null, so that all that is read back is finite. -/
theorem isFinite_of_mem_numbers_reread (x : Fact) :
    ∀ n ∈ (ofJson x.toJson).numbers, n.isFinite = true := by
  rw [ofJson_toJson, numbers_renumber]
  intro n hn
  obtain ⟨m, _, hmem⟩ := List.mem_flatMap.mp hn
  rw [ofJson_ofNumber] at hmem
  split at hmem
  · rename_i hm
    rw [List.mem_singleton.mp hmem, Number.isFinite_unsigned]
    exact hm
  · cases hmem

/-!
# Whole facts
-/

theorem looseEq_reread_iff (x : Fact) :
    (ofJson x.toJson).looseEq x = true ↔ ∀ n ∈ x.numbers, n.isFinite = true := by
  constructor
  · intro hequal
    have hplain := ((looseEq_iff _ x).mp hequal).2
    have hfinite (n : Float) : (Number.unsigned n).isFinite = true ↔ n.isFinite = true := by
      rw [Number.isFinite_unsigned]
    exact numbers_of_plain_eq hfinite hplain (isFinite_of_mem_numbers_reread x)
  · intro hx
    rw [ofJson_toJson_of_finite hx, looseEq_comm, looseEq_iff, plain_plain]
    constructor
    · intro n hn
      exact Decimal.isNaN_of_isFinite (hx n hn)
    · rfl

theorem toJson_reread (x : Fact) : (ofJson x.toJson).toJson = x.toJson := by
  rw [ofJson_toJson]
  apply toJson_renumber
  intro n
  rw [ofJson_ofNumber]
  split
  · exact Json.ofNumber_unsigned n
  · rename_i hn
    exact (Json.ofNumber_eq_null (Bool.eq_false_of_not_eq_true hn)).symm

/-!
# Facts that are shown in full
-/

mutual

def hasGap : Fact -> Bool
  | .absent => true
  | .null => false
  | .bool _ => false
  | .num _ => false
  | .str _ => false
  | .list items => gapAmong items
  | .map entries => gapUnder entries

def gapAmong : List Fact -> Bool
  | [] => false
  | item :: rest => item.hasGap || gapAmong rest

def gapUnder : List (String × Fact) -> Bool
  | [] => false
  | (_, value) :: rest => value.hasGap || gapUnder rest

end

/-- Facts that differ in nothing from what their values are read as: nothing in them is absent, and
their numbers are finite and no negative zeros. -/
structure ShownInFull (x : Fact) : Prop where
  present : x.hasGap = false
  finite : ∀ n ∈ x.numbers, n.isFinite = true
  unsigned : ∀ n ∈ x.numbers, n ≠ -0.0

mutual

theorem renumber_self : ∀ x : Fact, x.hasGap = false -> x.renumber .num = x
  | .null, _ => rfl
  | .bool _, _ => rfl
  | .num _, _ => rfl
  | .str _, _ => rfl
  | .list items, h => congrArg Fact.list (renumberItems_self items h)
  | .map entries, h => congrArg Fact.map (renumberEntries_self entries h)

theorem renumberItems_self : ∀ items : List Fact, gapAmong items = false ->
    renumberItems .num items = items
  | [], _ => rfl
  | item :: rest, h => by
      rcases Bool.or_eq_false_iff.mp h with ⟨hitem, hrest⟩
      unfold renumberItems
      rw [renumber_self item hitem, renumberItems_self rest hrest]

theorem renumberEntries_self : ∀ entries : List (String × Fact), gapUnder entries = false ->
    renumberEntries .num entries = entries
  | [], _ => rfl
  | (_, value) :: rest, h => by
      rcases Bool.or_eq_false_iff.mp h with ⟨hvalue, hrest⟩
      unfold renumberEntries
      rw [renumber_self value hvalue, renumberEntries_self rest hrest]

end

theorem ShownInFull.ofJson_toJson_eq {x : Fact} (h : x.ShownInFull) : ofJson x.toJson = x := by
  rw [ofJson_toJson_of_finite h.finite]
  calc
    x.plain = x.renumber .num := by
      apply renumber_congr
      intro n hn
      rw [Number.unsigned_of_ne (h.unsigned n hn)]
    _ = x := renumber_self x h.present

/-!
# Facts of documents

Nothing is absent in them, so the difference is one in the signs of zeros.
-/

mutual

theorem strictEq_reread : ∀ value : Json, value.isWellFormed = true ->
    (ofJson value).strictEq (ofJson (ofJson value).toJson) = true
  | .null, _ => rfl
  | .bool value, _ => beq_self_eq_true value
  | .num n, h => by
      have hfinite := Number.isFinite_toFloat h
      show (Fact.num n.toFloat).strictEq (ofJson (.ofNumber n.toFloat)) = true
      rw [ofJson_ofNumber_of_finite hfinite]
      exact Number.beq_unsigned hfinite
  | .str value, _ => beq_self_eq_true value
  | .arr items, h => strictEqItems_reread items h
  | .obj entries, h => strictEqEntries_reread entries (Bool.and_eq_true_iff.mp h).2

theorem strictEqItems_reread : ∀ items : List Json, Json.wellFormedItems items = true ->
    strictEqItems (ofItems items) (ofItems (toItems (ofItems items))) = true
  | [], _ => rfl
  | item :: rest, h => by
      rcases Bool.and_eq_true_iff.mp h with ⟨hitem, hrest⟩
      exact Bool.and_eq_true_iff.mpr
        ⟨strictEq_reread item hitem, strictEqItems_reread rest hrest⟩

theorem strictEqEntries_reread : ∀ entries : List (String × Json),
    Json.wellFormedEntries entries = true ->
    strictEqEntries (ofEntries entries) (ofEntries (toEntries (ofEntries entries))) = true
  | [], _ => rfl
  | (name, value) :: rest, h => by
      rcases Bool.and_eq_true_iff.mp h with ⟨hvalue, hrest⟩
      have hentry := Bool.and_eq_true_iff.mpr
        ⟨beq_self_eq_true name, strictEq_reread value hvalue⟩
      exact Bool.and_eq_true_iff.mpr ⟨hentry, strictEqEntries_reread rest hrest⟩

end

/-- A fact that is shown and read back is loosely the same if and only if all its numbers are
finite, it is shown as before, and if it comes from a document it is strictly the same. -/
theorem ofJson_toJson_round_trip :
    (∀ x : Fact, (ofJson x.toJson).looseEq x = true ↔ ∀ n ∈ x.numbers, n.isFinite = true) ∧
      (∀ x : Fact, (ofJson x.toJson).toJson = x.toJson) ∧
      ∀ document : Json.Document,
        (ofJson document.value).strictEq (ofJson (ofJson document.value).toJson) = true := by
  refine ⟨looseEq_reread_iff, toJson_reread, ?_⟩
  intro document
  exact strictEq_reread document.value document.wellFormed

end Fact
end Reckoner
