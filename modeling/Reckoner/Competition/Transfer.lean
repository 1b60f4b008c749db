import Reckoner.Competition.Basic

/-!
# Transfers

A competition moves scores between methods.  Every method claims the scores under
its keys, of which each goes to the first method that lists it.  Claimed scores
are multiplied by the multiplier of their method, and then scaled alike so that
their sum is what it was before, if there was anything to scale.
-/

namespace Reckoner
namespace Competition

universe u

open Quantity

variable {α : Type u} [Quantity α]

def leastMass : α := decimal 1 12

def scaleBetween (before after : α) : α :=
  if isFinite before && isFinite after && lt zero before && lt leastMass after then
    div before after
  else
    one

def listings (c : Competition α) (keys : Table (List String)) : List (String × α) :=
  c.methods.flatMap fun method =>
    ((keys.get? method).getD []).map fun key => (key, c.multiplier method)

/-- The keys that are claimed: those under which there is a score, each where it is listed first. -/
def claims (c : Competition α) (keys : Table (List String)) (scores : Table α) :
    List (String × α) :=
  (c.listings keys).foldl
    (fun claimed listing =>
      if scores.contains listing.1 && !Table.contains claimed listing.1 then
        claimed ++ [listing]
      else
        claimed)
    []

def scaleOf (claimed : List (String × α)) (scores : Table α) : α :=
  let old (key : String) : α := (scores.get? key).getD zero
  scaleBetween
    (sum (claimed.map fun claim => old claim.1))
    (sum (claimed.map fun claim => mul (old claim.1) claim.2))

def transfer (c : Competition α) (keys : Table (List String)) (scores : Table α) : Table α :=
  let claimed := c.claims keys scores
  let scale := scaleOf claimed scores
  List.map
    (fun entry =>
      match Table.get? claimed entry.1 with
      | some multiplier => (entry.1, mul entry.2 (mul multiplier scale))
      | none => entry)
    scores

end Competition
end Reckoner
