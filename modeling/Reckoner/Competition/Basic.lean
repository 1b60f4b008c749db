import Reckoner.Competition.Tuning

/-!
# Competitions

Methods compete with signals between zero and one.  The weight of a method is a
power of its signal, and its share is its part of the total weight; without any
weight to speak of all methods share alike.  The multiplier of a method lies
between the part that every method keeps, at share zero, and one, at share one.
-/

namespace Reckoner

universe u

structure Competition (α : Type u) where
  methods : List String := []
  power : α
  minKeep : α
  signals : Table α := []
  shares : Table α := []
  multipliers : Table α := []

namespace Competition

open Quantity

variable {α : Type u} [Quantity α]

def share (c : Competition α) (method : String) : α :=
  (c.shares.get? method).getD zero

/-- The multiplier of a method; a stranger leaves everything as it is. -/
def multiplier (c : Competition α) (method : String) : α :=
  (c.multipliers.get? method).getD one

def distinct (names : List String) : List String :=
  names.foldl (fun seen name => if name ∈ seen then seen else seen ++ [name]) []

/-- The signal of a method: zero if it is missing or not finite, and never out of range. -/
def signalOf (signals : Table α) (method : String) : α :=
  match signals.get? method with
  | some s => if isFinite s then clampUnit s else zero
  | none => zero

/-- The total weight above which methods share by weight. -/
def leastTotal : α := decimal 1 9

def sharesOf (weights : List α) : List α :=
  let total := sum weights
  if lt leastTotal total then
    weights.map fun w => div w total
  else
    weights.map fun _ => div one (ofNat weights.length)

/-- The multiplier for a share, on the line from the part kept at share zero to one at share one. -/
def multiplierOf (minKeep share : α) : α :=
  add minKeep (mul (sub one minKeep) share)

def settle (methods : List String) (signals : Table α) (tuning : Tuning α) : Competition α :=
  let methods := distinct methods
  let power := tuning.power
  let minKeep := tuning.minKeep
  let clamped := methods.map (signalOf signals)
  let weights := clamped.map fun s => pow s power
  let shares := Table.ofList (methods.zip (sharesOf weights))
  { methods := methods
    power := power
    minKeep := minKeep
    signals := Table.ofList (methods.zip clamped)
    shares := shares
    multipliers := shares.mapValues (multiplierOf minKeep) }

end Competition

/-!
# Competitions as records
-/

namespace Competition

def record : Json.Record (Competition Float) where
  name := "Competition"
  blank := { power := 0.0, minKeep := 0.0 }
  fields := [
    .mandatory "methods" (Json.Decoder.list Json.Decoder.string) Json.ofStrings
      Competition.methods fun methods c => { c with methods },
    .mandatory "power" Json.Decoder.float Json.ofFloat
      Competition.power fun power c => { c with power },
    .mandatory "minKeep" Json.Decoder.float Json.ofFloat
      Competition.minKeep fun minKeep c => { c with minKeep },
    .mandatory "signals" Json.Decoder.floats Json.ofFloats
      Competition.signals fun signals c => { c with signals },
    .mandatory "shares" Json.Decoder.floats Json.ofFloats
      Competition.shares fun shares c => { c with shares },
    .mandatory "multipliers" Json.Decoder.floats Json.ofFloats
      Competition.multipliers fun multipliers c => { c with multipliers }]

end Competition
end Reckoner
