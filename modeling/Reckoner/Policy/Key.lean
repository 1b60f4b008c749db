import Reckoner.Digest.Basic

/-!
# Keys of policies

A policy is found by the content of its document or by a handle that its owner
has chosen.
-/

namespace Reckoner

inductive PolicyKey where
  | content (digest : Digest)
  | handle (name : String)
  deriving DecidableEq, Inhabited

namespace PolicyKey

def ofDocument (document : Json) : PolicyKey :=
  .content (.ofJson document)

def order : PolicyKey -> PolicyKey -> Ordering
  | .content a, .content b => compare a.hex b.hex
  | .content _, .handle _ => .lt
  | .handle _, .content _ => .gt
  | .handle a, .handle b => compare a b

end PolicyKey
end Reckoner
