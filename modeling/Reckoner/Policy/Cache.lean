import Reckoner.Policy.Key

/-!
# The cache of policies

A cache keeps what has been compiled under a key until the key is invalidated.
Compiling may fail, and it may itself use the cache; of two values compiled for
one key the one that was entered first is kept.
-/

namespace Reckoner

universe u v

structure PolicyCache (π : Type u) where
  entries : List (PolicyKey × π) := []
  deriving Inhabited

namespace PolicyCache

variable {π : Type u} {ε : Type v}

def get? (cache : PolicyCache π) (key : PolicyKey) : Option π :=
  cache.entries.lookup key

def contains (cache : PolicyCache π) (key : PolicyKey) : Bool :=
  (cache.get? key).isSome

def size (cache : PolicyCache π) : Nat :=
  cache.entries.length

def isEmpty (cache : PolicyCache π) : Bool :=
  cache.size = 0

/-- Enters a value, unless its key has one: the value under the key afterwards, and the cache. -/
def getOrInsert (cache : PolicyCache π) (key : PolicyKey) (value : π) : π × PolicyCache π :=
  match cache.get? key with
  | some kept => (kept, cache)
  | none => (value, { entries := cache.entries ++ [(key, value)] })

/-- The value under a key, which is compiled if there is none. The compiler gets the cache and
gives back what it makes of it. -/
def getOrCompileWith (cache : PolicyCache π) (key : PolicyKey)
    (compile : PolicyCache π -> Except ε π × PolicyCache π) : Except ε π × PolicyCache π :=
  match cache.get? key with
  | some kept => (.ok kept, cache)
  | none =>
      match compile cache with
      | (.ok value, cache) =>
          let (kept, cache) := cache.getOrInsert key value
          (.ok kept, cache)
      | (.error e, cache) => (.error e, cache)

def getOrCompile (cache : PolicyCache π) (key : PolicyKey) (compile : Unit -> Except ε π) :
    Except ε π × PolicyCache π :=
  cache.getOrCompileWith key fun cache => (compile (), cache)

/-- Removes a key: whether it was there, and the cache without it. -/
def invalidate (cache : PolicyCache π) (key : PolicyKey) : Bool × PolicyCache π :=
  (cache.contains key, { entries := cache.entries.filter fun entry => entry.1 ≠ key })

def clear (_ : PolicyCache π) : PolicyCache π :=
  {}

end PolicyCache
end Reckoner
