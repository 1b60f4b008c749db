import Reckoner.Proofs.Decimal.Whole

/-!
# The numbers in a fact

Comparing facts and showing them as JSON both go through a fact down to its numbers,
and neither tells what is absent from null.  So what they do to a fact is what they do
to its numbers, once null is put in the place of all that is absent.
-/

namespace Reckoner

namespace Number

/-!
# Zeros without a sign
-/

theorem unsigned_eq_zero_iff {x : Float} : unsigned x = 0.0 ↔ x = 0.0 ∨ x = -0.0 := by
  unfold unsigned
  split
  · rename_i hzero
    exact ⟨fun _ => .inr hzero, fun _ => rfl⟩
  · rename_i hother
    exact ⟨.inl, fun h => h.resolve_right hother⟩

theorem unsigned_unsigned (x : Float) : unsigned (unsigned x) = unsigned x := by
  unfold unsigned
  split
  · rfl
  · rfl

theorem isNaN_unsigned (x : Float) : (unsigned x).isNaN = x.isNaN := by
  unfold unsigned
  split
  · rename_i hzero
    rw [hzero]
    rfl
  · rfl

theorem isFinite_unsigned (x : Float) : (unsigned x).isFinite = x.isFinite := by
  unfold unsigned
  split
  · rename_i hzero
    rw [hzero]
    rfl
  · rfl

/-- Numbers are equal if they are the same up to the sign of zero, unless they are none. -/
theorem beq_iff {x y : Float} :
    (x == y) = true ↔ x.isNaN = false ∧ unsigned x = unsigned y := by
  have hnan {z : Float} : z ≠ Float.nan ↔ z.isNaN = false := by
    rw [Float.isNaN_eq_decide_eq_nan, decide_eq_false_iff_not]
  rw [Float.beq_iff_ne_nan_and_eq, hnan, hnan]
  constructor
  · rintro ⟨hx, _, rfl | ⟨rfl, rfl⟩ | ⟨rfl, rfl⟩⟩
    · exact ⟨hx, rfl⟩
    · exact ⟨hx, rfl⟩
    · exact ⟨hx, rfl⟩
  · rintro ⟨hx, hsame⟩
    have hy : y.isNaN = false := by rw [← isNaN_unsigned, ← hsame, isNaN_unsigned, hx]
    refine ⟨hx, hy, ?_⟩
    by_cases hzero : unsigned x = 0.0
    · rcases unsigned_eq_zero_iff.mp hzero with rfl | rfl <;>
        rcases unsigned_eq_zero_iff.mp (hsame ▸ hzero) with rfl | rfl
      · exact .inl rfl
      · exact .inr (.inl ⟨rfl, rfl⟩)
      · exact .inr (.inr ⟨rfl, rfl⟩)
      · exact .inl rfl
    · have hx' : x ≠ -0.0 := fun h => hzero (unsigned_eq_zero_iff.mpr (.inr h))
      have hy' : y ≠ -0.0 := fun h => hzero (hsame ▸ unsigned_eq_zero_iff.mpr (.inr h))
      rw [unsigned_of_ne hx', unsigned_of_ne hy'] at hsame
      exact .inl hsame

end Number

namespace Fact

/-!
# Numbers and what is put in their place
-/

mutual

def numbers : Fact -> List Float
  | .absent => []
  | .null => []
  | .bool _ => []
  | .num value => [value]
  | .str _ => []
  | .list items => numbersOf items
  | .map entries => numbersUnder entries

def numbersOf : List Fact -> List Float
  | [] => []
  | item :: rest => item.numbers ++ numbersOf rest

def numbersUnder : List (String × Fact) -> List Float
  | [] => []
  | (_, value) :: rest => value.numbers ++ numbersUnder rest

end

mutual

/-- The fact with what a function makes of a number in the place of each, and null in the place
of everything absent. -/
def renumber (f : Float -> Fact) : Fact -> Fact
  | .absent => .null
  | .null => .null
  | .bool value => .bool value
  | .num value => f value
  | .str value => .str value
  | .list items => .list (renumberItems f items)
  | .map entries => .map (renumberEntries f entries)

def renumberItems (f : Float -> Fact) : List Fact -> List Fact
  | [] => []
  | item :: rest => item.renumber f :: renumberItems f rest

def renumberEntries (f : Float -> Fact) : List (String × Fact) -> List (String × Fact)
  | [] => []
  | (name, value) :: rest => (name, value.renumber f) :: renumberEntries f rest

end

section Renumber

variable {f g : Float -> Fact}

mutual

theorem renumber_congr : ∀ x : Fact, (∀ n ∈ x.numbers, f n = g n) ->
    x.renumber f = x.renumber g
  | .absent, _ => rfl
  | .null, _ => rfl
  | .bool _, _ => rfl
  | .num value, h => h value List.mem_cons_self
  | .str _, _ => rfl
  | .list items, h => congrArg Fact.list (renumberItems_congr items h)
  | .map entries, h => congrArg Fact.map (renumberEntries_congr entries h)

theorem renumberItems_congr : ∀ items : List Fact, (∀ n ∈ numbersOf items, f n = g n) ->
    renumberItems f items = renumberItems g items
  | [], _ => rfl
  | item :: rest, h => by
      obtain ⟨hitem, hrest⟩ := List.forall_mem_append.mp h
      unfold renumberItems
      rw [renumber_congr item hitem, renumberItems_congr rest hrest]

theorem renumberEntries_congr : ∀ entries : List (String × Fact),
    (∀ n ∈ numbersUnder entries, f n = g n) ->
    renumberEntries f entries = renumberEntries g entries
  | [], _ => rfl
  | (_, value) :: rest, h => by
      obtain ⟨hvalue, hrest⟩ := List.forall_mem_append.mp h
      unfold renumberEntries
      rw [renumber_congr value hvalue, renumberEntries_congr rest hrest]

end

mutual

theorem renumber_renumber : ∀ x : Fact,
    (x.renumber f).renumber g = x.renumber fun n => (f n).renumber g
  | .absent => rfl
  | .null => rfl
  | .bool _ => rfl
  | .num _ => rfl
  | .str _ => rfl
  | .list items => congrArg Fact.list (renumberItems_renumberItems items)
  | .map entries => congrArg Fact.map (renumberEntries_renumberEntries entries)

theorem renumberItems_renumberItems : ∀ items : List Fact,
    renumberItems g (renumberItems f items) = renumberItems (fun n => (f n).renumber g) items
  | [] => rfl
  | item :: rest => by
      show (item.renumber f).renumber g :: renumberItems g (renumberItems f rest) = _
      rw [renumber_renumber item, renumberItems_renumberItems rest]
      rfl

theorem renumberEntries_renumberEntries : ∀ entries : List (String × Fact),
    renumberEntries g (renumberEntries f entries) =
      renumberEntries (fun n => (f n).renumber g) entries
  | [] => rfl
  | (name, value) :: rest => by
      show (name, (value.renumber f).renumber g) :: renumberEntries g (renumberEntries f rest) = _
      rw [renumber_renumber value, renumberEntries_renumberEntries rest]
      rfl

end

mutual

theorem numbers_renumber : ∀ x : Fact,
    (x.renumber f).numbers = x.numbers.flatMap fun n => (f n).numbers
  | .absent => rfl
  | .null => rfl
  | .bool _ => rfl
  | .num value => (List.flatMap_singleton (fun n => (f n).numbers) value).symm
  | .str _ => rfl
  | .list items => numbersOf_renumberItems items
  | .map entries => numbersUnder_renumberEntries entries

theorem numbersOf_renumberItems : ∀ items : List Fact,
    numbersOf (renumberItems f items) = (numbersOf items).flatMap fun n => (f n).numbers
  | [] => rfl
  | item :: rest => by
      unfold renumberItems numbersOf
      rw [List.flatMap_append, numbers_renumber item, numbersOf_renumberItems rest]

theorem numbersUnder_renumberEntries : ∀ entries : List (String × Fact),
    numbersUnder (renumberEntries f entries) =
      (numbersUnder entries).flatMap fun n => (f n).numbers
  | [] => rfl
  | (_, value) :: rest => by
      unfold renumberEntries numbersUnder
      rw [List.flatMap_append, numbers_renumber value, numbersUnder_renumberEntries rest]

end

/-!
# Facts shown as JSON
-/

mutual

theorem toJson_renumber (hf : ∀ n, (f n).toJson = .ofNumber n) : ∀ x : Fact,
    (x.renumber f).toJson = x.toJson
  | .absent => rfl
  | .null => rfl
  | .bool _ => rfl
  | .num value => hf value
  | .str _ => rfl
  | .list items => congrArg Json.arr (toItems_renumberItems hf items)
  | .map entries => congrArg Json.obj (toEntries_renumberEntries hf entries)

theorem toItems_renumberItems (hf : ∀ n, (f n).toJson = .ofNumber n) : ∀ items : List Fact,
    toItems (renumberItems f items) = toItems items
  | [] => rfl
  | item :: rest => by
      unfold renumberItems toItems
      rw [toJson_renumber hf item, toItems_renumberItems hf rest]

theorem toEntries_renumberEntries (hf : ∀ n, (f n).toJson = .ofNumber n) :
    ∀ entries : List (String × Fact), toEntries (renumberEntries f entries) = toEntries entries
  | [] => rfl
  | (_, value) :: rest => by
      unfold renumberEntries toEntries
      rw [toJson_renumber hf value, toEntries_renumberEntries hf rest]

end

mutual

theorem ofJson_toJson : ∀ x : Fact, ofJson x.toJson = x.renumber fun n => ofJson (.ofNumber n)
  | .absent => rfl
  | .null => rfl
  | .bool _ => rfl
  | .num _ => rfl
  | .str _ => rfl
  | .list items => congrArg Fact.list (ofItems_toItems items)
  | .map entries => congrArg Fact.map (ofEntries_toEntries entries)

theorem ofItems_toItems : ∀ items : List Fact,
    ofItems (toItems items) = renumberItems (fun n => ofJson (.ofNumber n)) items
  | [] => rfl
  | item :: rest => by
      unfold toItems ofItems renumberItems
      rw [ofJson_toJson item, ofItems_toItems rest]

theorem ofEntries_toEntries : ∀ entries : List (String × Fact),
    ofEntries (toEntries entries) = renumberEntries (fun n => ofJson (.ofNumber n)) entries
  | [] => rfl
  | (_, value) :: rest => by
      unfold toEntries ofEntries renumberEntries
      rw [ofJson_toJson value, ofEntries_toEntries rest]

end

end Renumber

/-!
# Plain facts
-/

def plain (x : Fact) : Fact :=
  x.renumber fun n => .num (Number.unsigned n)

theorem numbers_plain (x : Fact) : x.plain.numbers = x.numbers.map Number.unsigned := by
  unfold plain
  rw [numbers_renumber]
  exact List.flatMap_pure_eq_map Number.unsigned x.numbers

theorem plain_plain (x : Fact) : x.plain.plain = x.plain := by
  unfold plain
  rw [renumber_renumber]
  apply renumber_congr
  intro n _
  exact congrArg Fact.num (Number.unsigned_unsigned n)

theorem toJson_plain (x : Fact) : x.plain.toJson = x.toJson := by
  apply toJson_renumber
  exact Json.ofNumber_unsigned

end Fact
end Reckoner
