import Reckoner.Competition.Quantity
import Reckoner.Json.Record

/-!
# Tuning

How sharply a competition separates strong signals from weak ones, and how much
every method keeps in any case.  Values that are missing or not finite give way to
defaults, and values out of range are moved into it.
-/

namespace Reckoner

universe u

structure Tuning (α : Type u) where
  power? : Option α := none
  minKeep? : Option α := none
  deriving Inhabited

structure FullTuning (α : Type u) where
  power : α
  minKeep : α

namespace Tuning

open Quantity

variable {α : Type u} [Quantity α]

def defaultPower : α := ofNat 2

def defaultMinKeep : α := decimal 2 1

def minPower : α := decimal 1 2

def power (t : Tuning α) : α :=
  match t.power? with
  | some p => if isFinite p then atLeast minPower p else defaultPower
  | none => defaultPower

def minKeep (t : Tuning α) : α :=
  match t.minKeep? with
  | some k => if isFinite k then clampUnit k else defaultMinKeep
  | none => defaultMinKeep

def fill (defaults : FullTuning α) (t : Tuning α) : Tuning α :=
  { power? := some (t.power?.getD defaults.power)
    minKeep? := some (t.minKeep?.getD defaults.minKeep) }

end Tuning

namespace FullTuning

def standard {α : Type u} [Quantity α] : FullTuning α where
  power := Tuning.defaultPower
  minKeep := Tuning.defaultMinKeep

end FullTuning

/-!
# Tunings as records
-/

def Tuning.record : Json.Record (Tuning Float) where
  name := "CompeteOptions"
  blank := {}
  fields := [
    .optional "power" Json.Decoder.float Json.ofFloat
      Tuning.power? fun power? t => { t with power? },
    .optional "minKeep" Json.Decoder.float Json.ofFloat
      Tuning.minKeep? fun minKeep? t => { t with minKeep? }]

def FullTuning.record : Json.Record (FullTuning Float) where
  name := "CompetitionDefaults"
  blank := .standard
  fields := [
    .defaulted "power" Json.Decoder.float Json.ofFloat
      FullTuning.power fun power t => { t with power },
    .defaulted "minKeep" Json.Decoder.float Json.ofFloat
      FullTuning.minKeep fun minKeep t => { t with minKeep }]

end Reckoner
