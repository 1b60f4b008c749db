import Reckoner.Policy.Cache
import Mathlib.Data.List.Nodup

/-!
# What look-ups see of a cache

Every operation on a cache is known by what the look-ups after it give.
-/

namespace Reckoner
namespace PolicyCache

universe u

variable {π : Type u} {cache : PolicyCache π} {key other : PolicyKey} {value : π}

/-!
# Entering
-/

theorem getOrInsert_of_some {kept : π} (h : cache.get? key = some kept) :
    cache.getOrInsert key value = (kept, cache) := by
  unfold getOrInsert
  rw [h]

theorem getOrInsert_of_none (h : cache.get? key = none) :
    cache.getOrInsert key value = (value, { entries := cache.entries ++ [(key, value)] }) := by
  unfold getOrInsert
  rw [h]

theorem getOrInsert_fst (cache : PolicyCache π) (key : PolicyKey) (value : π) :
    (cache.getOrInsert key value).1 = (cache.get? key).getD value := by
  cases h : cache.get? key with
  | some kept => rw [getOrInsert_of_some h, Option.getD_some]
  | none => rw [getOrInsert_of_none h, Option.getD_none]

theorem get?_getOrInsert (cache : PolicyCache π) (key : PolicyKey) (value : π) :
    (cache.getOrInsert key value).2.get? key = some (cache.getOrInsert key value).1 := by
  cases h : cache.get? key with
  | some kept =>
      rw [getOrInsert_of_some h]
      exact h
  | none =>
      rw [getOrInsert_of_none h]
      show (cache.entries ++ [(key, value)]).lookup key = some value
      rw [List.lookup_append, List.lookup_cons_self]
      show (cache.get? key).or (some value) = some value
      rw [h]
      rfl

theorem get?_getOrInsert_of_ne (value : π) (hne : key ≠ other) :
    (cache.getOrInsert key value).2.get? other = cache.get? other := by
  cases h : cache.get? key with
  | some kept => rw [getOrInsert_of_some h]
  | none =>
      have hmissing : (other == key) = false := beq_eq_false_iff_ne.mpr hne.symm
      rw [getOrInsert_of_none h]
      show (cache.entries ++ [(key, value)]).lookup other = cache.entries.lookup other
      rw [List.lookup_append, List.lookup_cons, hmissing]
      exact Option.or_none

/-!
# Removing
-/

theorem lookup_filter_ne (entries : List (PolicyKey × π)) (key other : PolicyKey) :
    (entries.filter fun entry => decide (entry.1 ≠ key)).lookup other =
      if other = key then none else entries.lookup other := by
  induction entries with
  | nil => split <;> rfl
  | cons entry rest ih =>
      by_cases hgone : entry.1 = key
      · have hfilter : decide (entry.1 ≠ key) = false := decide_eq_false (not_not_intro hgone)
        rw [List.filter_cons, hfilter, if_neg Bool.false_ne_true, ih, List.lookup_cons]
        split
        · rfl
        · rename_i hne
          have hmissing : (other == entry.1) = false := by
            rw [hgone]
            exact beq_eq_false_iff_ne.mpr hne
          rw [hmissing]
      · have hfilter : decide (entry.1 ≠ key) = true := decide_eq_true hgone
        rw [List.filter_cons, hfilter, if_pos rfl, List.lookup_cons, List.lookup_cons, ih]
        by_cases hsame : other = key
        · have hmissing : (other == entry.1) = false := by
            rw [hsame]
            exact beq_eq_false_iff_ne.mpr (Ne.symm hgone)
          rw [hmissing, if_pos hsame]
        · rw [if_neg hsame, if_neg hsame]

theorem get?_invalidate (cache : PolicyCache π) (key other : PolicyKey) :
    (cache.invalidate key).2.get? other = if other = key then none else cache.get? other :=
  lookup_filter_ne cache.entries key other

theorem get?_clear (cache : PolicyCache π) (key : PolicyKey) : cache.clear.get? key = none := by
  rfl

/-!
# Compiling
-/

section Compiling

universe v

variable {ε : Type v} {compile : PolicyCache π -> Except ε π × PolicyCache π}
  {after : PolicyCache π}

theorem getOrCompileWith_of_some {kept : π} (h : cache.get? key = some kept) :
    cache.getOrCompileWith key compile = (.ok kept, cache) := by
  unfold getOrCompileWith
  rw [h]

theorem getOrCompileWith_of_error {e : ε} (h : cache.get? key = none)
    (hcompile : compile cache = (.error e, after)) :
    cache.getOrCompileWith key compile = (.error e, after) := by
  unfold getOrCompileWith
  rw [h]
  simp only [hcompile]

theorem getOrCompileWith_of_ok (h : cache.get? key = none)
    (hcompile : compile cache = (.ok value, after)) :
    cache.getOrCompileWith key compile =
      (.ok (after.getOrInsert key value).1, (after.getOrInsert key value).2) := by
  unfold getOrCompileWith
  rw [h]
  simp only [hcompile]

end Compiling

/-!
# Keys

No key is listed twice, so the keys are counted by counting the entries.
-/

def keys (cache : PolicyCache π) : List PolicyKey :=
  cache.entries.map Prod.fst

theorem length_keys (cache : PolicyCache π) : cache.keys.length = cache.size :=
  List.length_map Prod.fst

theorem mem_keys : key ∈ cache.keys ↔ (cache.get? key).isSome = true := by
  unfold keys get?
  rw [List.lookup_isSome_iff, List.mem_map]
  constructor
  · rintro ⟨entry, hentry, rfl⟩
    exact ⟨entry, hentry, beq_self_eq_true entry.1⟩
  · rintro ⟨entry, hentry, hkey⟩
    exact ⟨entry, hentry, (eq_of_beq hkey).symm⟩

theorem nodup_keys_getOrInsert (h : cache.keys.Nodup) (key : PolicyKey) (value : π) :
    (cache.getOrInsert key value).2.keys.Nodup := by
  cases hkept : cache.get? key with
  | some kept =>
      rw [getOrInsert_of_some hkept]
      exact h
  | none =>
      have hnew : key ∉ cache.keys := by
        intro hmem
        rw [mem_keys, hkept] at hmem
        cases hmem
      have hkeys : (cache.getOrInsert key value).2.keys = cache.keys ++ [key] := by
        rw [getOrInsert_of_none hkept]
        exact List.map_append
      rw [hkeys, ← List.concat_eq_append]
      exact h.concat hnew

theorem nodup_keys_invalidate (h : cache.keys.Nodup) (key : PolicyKey) :
    (cache.invalidate key).2.keys.Nodup :=
  h.sublist (List.filter_sublist.map Prod.fst)

end PolicyCache
end Reckoner
