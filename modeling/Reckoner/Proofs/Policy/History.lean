import Reckoner.Proofs.Policy.Cache
import Mathlib.Data.List.DropRight

/-!
# A cache through its history

A cache is used for any number of operations, one after another, and a compiler may
use it before it succeeds or fails.  What the cache keeps is told by the log of what
has ended: under a key it keeps the first value that was compiled for it since the key
was last invalidated or the cache last cleared.

A compiler finds the cache as it is after the operations before it.  So what is true
after any history is also true in the middle of a compilation.
-/

namespace Reckoner
namespace PolicyCache

universe u v

variable {π : Type u} {ε : Type v}

/-!
# Histories
-/

/-- Something that is done with a cache. A compiler may use the cache before it succeeds or
fails. -/
inductive Operation (π : Type u) (ε : Type v) where
  | get (key : PolicyKey)
  | compile (key : PolicyKey) (uses : List (Operation π ε)) (result : Except ε π)
  | invalidate (key : PolicyKey)
  | clear
  | size

mutual

def perform (cache : PolicyCache π) : Operation π ε -> PolicyCache π
  | .get _ => cache
  | .compile key uses result =>
      (cache.getOrCompileWith key fun cache => (result, performAll cache uses)).2
  | .invalidate key => (cache.invalidate key).2
  | .clear => cache.clear
  | .size => cache

def performAll (cache : PolicyCache π) : List (Operation π ε) -> PolicyCache π
  | [] => cache
  | operation :: rest => performAll (perform cache operation) rest

end

/-- What has ended, with the answer if it was a compilation. -/
inductive Event (π : Type u) (ε : Type v) where
  | compiled (key : PolicyKey) (answer : Except ε π)
  | invalidated (key : PolicyKey)
  | cleared

mutual

def events (cache : PolicyCache π) : Operation π ε -> List (Event π ε)
  | .get _ => []
  | .compile key uses result =>
      let answer := (cache.getOrCompileWith key fun cache => (result, performAll cache uses)).1
      -- a compiler whose key is there is not run, so nothing ends in it
      (if cache.contains key then [] else eventsAll cache uses) ++ [.compiled key answer]
  | .invalidate key => [.invalidated key]
  | .clear => [.cleared]
  | .size => []

def eventsAll (cache : PolicyCache π) : List (Operation π ε) -> List (Event π ε)
  | [] => []
  | operation :: rest => events cache operation ++ eventsAll (perform cache operation) rest

end

/-!
# What a log tells
-/

namespace Event

/-- Whether nothing is kept under a key right after something has ended. -/
def forgets (key : PolicyKey) : Event π ε -> Bool
  | .compiled _ _ => false
  | .invalidated other => key = other
  | .cleared => true

def success? (key : PolicyKey) : Event π ε -> Option π
  | .compiled other (.ok value) => if other = key then some value else none
  | _ => none

end Event

/-- The first value that was compiled for a key since the key was last invalidated or the cache last
cleared. -/
def firstKept (log : List (Event π ε)) (key : PolicyKey) : Option π :=
  (log.rtakeWhile fun event => !event.forgets key).findSome? (Event.success? key)

theorem firstKept_concat (log : List (Event π ε)) (event : Event π ε) (key : PolicyKey) :
    firstKept (log ++ [event]) key =
      if event.forgets key then none else (firstKept log key).or (event.success? key) := by
  unfold firstKept
  rw [List.rtakeWhile_concat]
  cases event.forgets key with
  | true => rfl
  | false =>
      change ((log.rtakeWhile fun event => !event.forgets key) ++ [event]).findSome? _ = _
      rw [List.findSome?_append, List.findSome?_singleton]
      rfl

structure Recalls (log : List (Event π ε)) (cache : PolicyCache π) : Prop where
  kept : ∀ key, cache.get? key = firstKept log key
  distinct : cache.keys.Nodup

/-!
# Compiling
-/

section Compiling

variable {cache : PolicyCache π} {key : PolicyKey}

theorem perform_compile_of_some {kept : π} (h : cache.get? key = some kept)
    (uses : List (Operation π ε)) (result : Except ε π) :
    cache.perform (.compile key uses result) = cache ∧
      cache.events (.compile key uses result) = [.compiled key (.ok kept)] := by
  have hcontains : cache.contains key = true := by
    unfold contains
    rw [h]
    rfl
  unfold perform events
  rw [getOrCompileWith_of_some h, if_pos hcontains]
  exact ⟨rfl, rfl⟩

def ended (cache : PolicyCache π) (key : PolicyKey) : Except ε π -> Except ε π × PolicyCache π
  | .ok value => (.ok (cache.getOrInsert key value).1, (cache.getOrInsert key value).2)
  | .error e => (.error e, cache)

theorem getOrCompileWith_of_none (h : cache.get? key = none)
    (compile : PolicyCache π -> Except ε π × PolicyCache π) :
    cache.getOrCompileWith key compile = (compile cache).2.ended key (compile cache).1 := by
  cases hcompile : compile cache with
  | mk result after =>
      cases result with
      | error e => exact getOrCompileWith_of_error h hcompile
      | ok value => exact getOrCompileWith_of_ok h hcompile

theorem ended_fst (cache : PolicyCache π) (key : PolicyKey) (result : Except ε π) :
    (cache.ended key result).1 = result.map (cache.get? key).getD := by
  cases result with
  | ok value => exact congrArg Except.ok (getOrInsert_fst cache key value)
  | error e => rfl

theorem ended_error {result : Except ε π} {e : ε} (hresult : result = .error e) :
    (cache.ended key result).2 = cache := by
  rw [hresult]
  rfl

/-- A compiler that does not use the cache. -/
theorem getOrCompile_of_none (h : cache.get? key = none) (compile : Unit -> Except ε π) :
    (cache.getOrCompile key compile).1 = compile () ∧
      (∀ e, compile () = .error e -> (cache.getOrCompile key compile).2 = cache) ∧
      (∀ value, compile () = .ok value ->
        (cache.getOrCompile key compile).2.get? key = some value) := by
  have hended : cache.getOrCompile key compile = cache.ended key (compile ()) :=
    getOrCompileWith_of_none h fun cache => (compile (), cache)
  rw [hended]
  constructor
  · rw [ended_fst, h]
    cases compile () with
    | ok value => rfl
    | error e => rfl
  · constructor
    · exact fun e hcompile => ended_error hcompile
    · intro value hcompile
      rw [hcompile]
      change (cache.getOrInsert key value).2.get? key = some value
      rw [get?_getOrInsert, getOrInsert_fst, h, Option.getD_none]

theorem perform_compile_of_none (h : cache.get? key = none) (uses : List (Operation π ε))
    (result : Except ε π) :
    cache.perform (.compile key uses result) = ((cache.performAll uses).ended key result).2 ∧
      cache.events (.compile key uses result) =
        cache.eventsAll uses ++ [.compiled key ((cache.performAll uses).ended key result).1] := by
  have hcontains : ¬ cache.contains key = true := by
    unfold contains
    rw [h]
    exact Bool.false_ne_true
  unfold perform events
  rw [getOrCompileWith_of_none h, if_neg hcontains]
  exact ⟨rfl, rfl⟩

end Compiling

/-!
# The cache and the log
-/

namespace Recalls

variable {log : List (Event π ε)} {cache : PolicyCache π}

theorem start : Recalls ([] : List (Event π ε)) ({} : PolicyCache π) where
  kept := fun _ => rfl
  distinct := List.nodup_nil

theorem enter (h : Recalls log cache) (key : PolicyKey) (value : π) :
    Recalls (log ++ [.compiled key (.ok (cache.getOrInsert key value).1)])
      (cache.getOrInsert key value).2 := by
  constructor
  · intro other
    rw [firstKept_concat, ← h.kept]
    change _ = (cache.get? other).or (if key = other then _ else none)
    by_cases hsame : key = other
    · rw [← hsame, get?_getOrInsert, if_pos rfl]
      -- a value that is there already is also the first one in the log
      cases hkept : cache.get? key with
      | some kept =>
          rw [getOrInsert_of_some hkept]
          rfl
      | none => rfl
    · rw [get?_getOrInsert_of_ne value hsame, if_neg hsame]
      exact Option.or_none.symm
  · exact nodup_keys_getOrInsert h.distinct key value

theorem ended (h : Recalls log cache) (key : PolicyKey) (result : Except ε π) :
    Recalls (log ++ [.compiled key (cache.ended key result).1]) (cache.ended key result).2 := by
  cases result with
  | ok value => exact h.enter key value
  | error e =>
      constructor
      · intro other
        rw [firstKept_concat, ← h.kept]
        exact Option.or_none.symm
      · exact h.distinct

theorem invalidate (h : Recalls log cache) (key : PolicyKey) :
    Recalls (log ++ [.invalidated key]) (cache.invalidate key).2 := by
  constructor
  · intro other
    rw [firstKept_concat, get?_invalidate, ← h.kept]
    change _ = if decide (other = key) = true then none else (cache.get? other).or none
    simp only [decide_eq_true_eq, Option.or_none]
  · exact nodup_keys_invalidate h.distinct key

theorem clear (log : List (Event π ε)) (cache : PolicyCache π) :
    Recalls (log ++ [.cleared]) cache.clear := by
  constructor
  · intro key
    rw [firstKept_concat]
    rfl
  · exact List.nodup_nil

mutual

theorem perform : ∀ (operation : Operation π ε) {log : List (Event π ε)} {cache : PolicyCache π},
    Recalls log cache -> Recalls (log ++ cache.events operation) (cache.perform operation)
  | .get key, log, cache, h => by
      unfold events PolicyCache.perform
      rw [List.append_nil]
      exact h
  | .compile key uses result, log, cache, h => by
      cases hkept : cache.get? key with
      | some kept =>
          -- what is served counts as a success again, which is never the first one
          rcases perform_compile_of_some hkept uses result with ⟨hcache, hevents⟩
          have hsame := h.enter key kept
          rw [getOrInsert_of_some hkept] at hsame
          rw [hcache, hevents]
          exact hsame
      | none =>
          rcases perform_compile_of_none hkept uses result with ⟨hcache, hevents⟩
          rw [hcache, hevents, ← List.append_assoc]
          exact (performAll uses h).ended key result
  | .invalidate key, log, cache, h => by
      unfold events PolicyCache.perform
      exact h.invalidate key
  | .clear, log, cache, h => by
      unfold events PolicyCache.perform
      exact clear log cache
  | .size, log, cache, h => by
      unfold events PolicyCache.perform
      rw [List.append_nil]
      exact h

theorem performAll : ∀ (operations : List (Operation π ε)) {log : List (Event π ε)}
    {cache : PolicyCache π}, Recalls log cache ->
      Recalls (log ++ cache.eventsAll operations) (cache.performAll operations)
  | [], log, cache, h => by
      unfold eventsAll PolicyCache.performAll
      rw [List.append_nil]
      exact h
  | operation :: rest, log, cache, h => by
      unfold eventsAll PolicyCache.performAll
      rw [← List.append_assoc]
      exact performAll rest (perform operation h)

end

end Recalls

/-!
# Keys that an operation does not concern
-/

mutual

/-- An operation that compiles and invalidates other keys only, and clears nothing. -/
def Operation.Spares (key : PolicyKey) : Operation π ε -> Prop
  | .get _ => True
  | .compile other uses _ => other ≠ key ∧ SparesAll key uses
  | .invalidate other => other ≠ key
  | .clear => False
  | .size => True

def SparesAll (key : PolicyKey) : List (Operation π ε) -> Prop
  | [] => True
  | operation :: rest => operation.Spares key ∧ SparesAll key rest

end

theorem get?_ended_of_ne {cache : PolicyCache π} {key other : PolicyKey} (hne : key ≠ other)
    (result : Except ε π) : (cache.ended key result).2.get? other = cache.get? other := by
  cases result with
  | ok value => exact get?_getOrInsert_of_ne value hne
  | error e => rfl

mutual

theorem get?_perform_of_spares (key : PolicyKey) :
    ∀ (operation : Operation π ε) (cache : PolicyCache π), operation.Spares key ->
      (cache.perform operation).get? key = cache.get? key
  | .get _, cache, _ => by
      unfold perform
      rfl
  | .compile other uses result, cache, hspares => by
      unfold Operation.Spares at hspares
      cases hkept : cache.get? other with
      | some kept => rw [(perform_compile_of_some hkept uses result).1]
      | none =>
          rw [(perform_compile_of_none hkept uses result).1, get?_ended_of_ne hspares.1]
          exact get?_performAll_of_spares key uses cache hspares.2
  | .invalidate other, cache, hspares => by
      unfold Operation.Spares at hspares
      unfold perform
      rw [get?_invalidate, if_neg (Ne.symm hspares)]
  | .clear, cache, hspares => by
      unfold Operation.Spares at hspares
      exact hspares.elim
  | .size, cache, _ => by
      unfold perform
      rfl

theorem get?_performAll_of_spares (key : PolicyKey) :
    ∀ (operations : List (Operation π ε)) (cache : PolicyCache π), SparesAll key operations ->
      (cache.performAll operations).get? key = cache.get? key
  | [], cache, _ => by
      unfold performAll
      rfl
  | operation :: rest, cache, hspares => by
      unfold SparesAll at hspares
      unfold performAll
      rw [get?_performAll_of_spares key rest (cache.perform operation) hspares.2]
      exact get?_perform_of_spares key operation cache hspares.1

end

/-!
# Any history
-/

theorem performAll_append (cache : PolicyCache π) (history more : List (Operation π ε)) :
    cache.performAll (history ++ more) = (cache.performAll history).performAll more := by
  induction history generalizing cache with
  | nil => rfl
  | cons operation rest ih => exact ih (cache.perform operation)

theorem recalls_of_history (history : List (Operation π ε)) :
    Recalls (eventsAll {} history) (performAll {} history) :=
  Recalls.start.performAll history

/-- After any history, a compiler is run if no value has been compiled for its key since the key was
last invalidated or the cache last cleared. Otherwise the first of these values is served. -/
theorem keeps_first_success (history : List (Operation π ε)) :
    let cache : PolicyCache π := performAll {} history
    let kept := firstKept (eventsAll {} history)
    (∀ key, cache.get? key = kept key) ∧
      (∀ key value, kept key = some value ->
        ∀ compile : PolicyCache π -> Except ε π × PolicyCache π,
          cache.getOrCompileWith key compile = (.ok value, cache)) ∧
      (∀ key, kept key = none -> ∀ compile : Unit -> Except ε π,
        (cache.getOrCompile key compile).1 = compile () ∧
          (∀ e, compile () = .error e -> (cache.getOrCompile key compile).2 = cache) ∧
          (∀ value, compile () = .ok value ->
            (cache.getOrCompile key compile).2.get? key = some value)) ∧
      (∀ key, kept key = none -> ∀ (uses : List (Operation π ε)) (result : Except ε π),
        let called := cache.getOrCompileWith key fun cache => (result, cache.performAll uses)
        called.1 = result.map (firstKept (eventsAll {} (history ++ uses)) key).getD ∧
          (∀ e, result = .error e -> called.2 = performAll {} (history ++ uses))) ∧
      (∀ key, (cache.invalidate key).1 = (kept key).isSome) ∧
      (∀ (operation : Operation π ε) key, operation.Spares key ->
        (cache.perform operation).get? key = kept key) ∧
      (∀ name digest, PolicyKey.handle name ≠ .content digest) ∧
      ∃ keys : List PolicyKey,
        keys.Nodup ∧ (∀ key, key ∈ keys ↔ (kept key).isSome = true) ∧
          cache.size = keys.length := by
  intro cache kept
  have hcache : Recalls (eventsAll {} history) cache := recalls_of_history history
  have hkeep : ∀ key, cache.get? key = kept key := hcache.kept
  constructor
  · exact hkeep
  constructor
  · intro key value hkept compile
    rw [← hkeep] at hkept
    exact getOrCompileWith_of_some hkept
  constructor
  · intro key hkept compile
    rw [← hkeep] at hkept
    exact getOrCompile_of_none hkept compile
  constructor
  · intro key hkept uses result called
    rw [← hkeep] at hkept
    have hcalled : called = (cache.performAll uses).ended key result :=
      getOrCompileWith_of_none hkept _
    rw [hcalled, ← performAll_append]
    constructor
    · rw [ended_fst, (recalls_of_history (history ++ uses)).kept]
    · exact fun e hresult => ended_error hresult
  constructor
  · intro key
    rw [← hkeep]
    rfl
  constructor
  · intro operation key hspares
    rw [get?_perform_of_spares key operation cache hspares]
    exact hkeep key
  constructor
  · intro name digest heq
    cases heq
  · exact ⟨cache.keys, hcache.distinct, fun key => hkeep key ▸ mem_keys,
      (length_keys cache).symm⟩

/-- A value is served after a failure, then it is replaced in the midst of a compilation under
another key, which comes too late itself. -/
theorem keeps_first_success_replaced :
    let a := PolicyKey.handle "a"
    let b := PolicyKey.content ⟨"a"⟩
    let history : List (Operation Nat String) := [
      .compile a [] (.error "e"), .compile a [] (.ok 1), .compile a [] (.ok 2),
      .compile b [.get a, .invalidate a, .compile b [] (.ok 3), .compile a [] (.ok 4)] (.ok 5)]
    let cache : PolicyCache Nat := performAll {} history
    let without : PolicyCache Nat := performAll {} (history ++ [.invalidate a])
    (∀ compile : PolicyCache Nat -> Except String Nat × PolicyCache Nat,
      cache.getOrCompileWith a compile = (.ok 4, cache) ∧
        cache.getOrCompileWith b compile = (.ok 3, cache)) ∧
      (∀ compile : Unit -> Except String Nat,
        (without.getOrCompile a compile).1 = compile ()) ∧
      (cache.perform (.compile b [.clear] (.ok 6) : Operation Nat String)).get? a = some 4 := by
  intro a b history cache without
  have hkept : firstKept (eventsAll {} history) a = some 4 ∧
      firstKept (eventsAll {} history) b = some 3 := by
    decide +kernel +revert
  have hgone : firstKept (eventsAll {} (history ++ [.invalidate a])) a = none := by
    decide +kernel +revert
  have hcleared : (cache.perform (.compile b [.clear] (.ok 6) : Operation Nat String)).get? a =
      some 4 := by
    decide +kernel +revert
  have hserved := (keeps_first_success history).2.1
  have hrun := (keeps_first_success (history ++ [.invalidate a])).2.2.1
  constructor
  · exact fun compile => ⟨hserved a 4 hkept.1 compile, hserved b 3 hkept.2 compile⟩
  · exact ⟨fun compile => (hrun a hgone compile).1, hcleared⟩

end PolicyCache
end Reckoner
