import Reckoner.Settings.Basic
import Reckoner.Toml.Parser

/-!
# Settings in TOML

Settings that are not given keep their defaults, and names that are not known are
passed over.  The tuning may be a table, or an array of its two numbers.
-/

namespace Reckoner
namespace Settings

open Toml (Value)

def size? : Value -> Option Nat
  | .int n => if n < 0 then none else some n.toNat
  | _ => none

def number? : Value -> Option Float
  | .int n => some (Float.ofInt n)
  | .float x => some x
  | _ => none

/-- What an entry says, or a default if it is missing. -/
def entryOr? {α : Type} (entries : List (String × Value)) (name : String) (default : α)
    (read : Value -> Option α) : Option α :=
  match Table.get? entries name with
  | some value => read value
  | none => some default

def tuningOfEntries? (entries : List (String × Value)) : Option (FullTuning Float) := do
  let standard : FullTuning Float := .standard
  let power ← entryOr? entries "power" standard.power number?
  let minKeep ← entryOr? entries "minKeep" standard.minKeep number?
  return { power, minKeep }

/-- A value as a tuning. A moment of time has no entries of the known names. -/
def tuning? : Value -> Option (FullTuning Float)
  | .table _ entries => tuningOfEntries? entries
  | .inlined entries => tuningOfEntries? entries
  | .moment => some .standard
  | .array [] => some .standard
  | .array [power] => do
      return { power := ← number? power, minKeep := (.standard : FullTuning Float).minKeep }
  | .array (power :: minKeep :: _) => do
      return { power := ← number? power, minKeep := ← number? minKeep }
  | _ => none

def ofEntries? (entries : List (String × Value)) : Option Settings := do
  let standard : Settings := {}
  let maxExprDepth ← entryOr? entries "maxExprDepth" standard.maxExprDepth size?
  let maxTemplateDepth ← entryOr? entries "maxTemplateDepth" standard.maxTemplateDepth size?
  let competition ← entryOr? entries "competition" standard.competition tuning?
  return { maxExprDepth, maxTemplateDepth, competition }

def ofToml (text : String) : Except SettingsError Settings :=
  match (Toml.parse text).bind ofEntries? with
  | some s => s.validate
  | none => .error .toml

end Settings
end Reckoner
