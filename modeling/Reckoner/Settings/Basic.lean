import Reckoner.Competition.Tuning
import Reckoner.Expr.Error
import Reckoner.Expr.Eval

/-!
# Settings

The settings of an engine: how deep expressions and templates may be nested, and
the tuning of competitions where a caller leaves it open.
-/

namespace Reckoner

structure Settings where
  maxExprDepth : Nat := 64
  maxTemplateDepth : Nat := 32
  competition : FullTuning Float := .standard

inductive SettingsError where
  | toml
  | json (cause : Json.DecodeError)
  | zeroDepth (field : String)
  deriving DecidableEq

namespace SettingsError

def message? : SettingsError -> Option String
  | .toml => none
  | .json cause => cause.message?.map ("failed to parse JSON config: " ++ ·)
  | .zeroDepth field => some ("invalid config field `" ++ field ++ "`: must be at least 1")

end SettingsError

namespace Settings

def limits (s : Settings) : Limits where
  expr := s.maxExprDepth
  template := s.maxTemplateDepth

/-- Accepts settings that leave room for at least one level. -/
def validate (s : Settings) : Except SettingsError Settings :=
  if s.maxExprDepth = 0 then
    .error (.zeroDepth "maxExprDepth")
  else if s.maxTemplateDepth = 0 then
    .error (.zeroDepth "maxTemplateDepth")
  else
    .ok s

def record : Json.Record Settings where
  name := "EngineConfig"
  blank := {}
  fields := [
    .defaulted "maxExprDepth" Json.Decoder.size Json.ofNat
      Settings.maxExprDepth fun maxExprDepth s => { s with maxExprDepth },
    .defaulted "maxTemplateDepth" Json.Decoder.size Json.ofNat
      Settings.maxTemplateDepth fun maxTemplateDepth s => { s with maxTemplateDepth },
    .defaulted "competition" FullTuning.record.decoder FullTuning.record.encode
      Settings.competition fun competition s => { s with competition }]

def toJson (s : Settings) : Json :=
  record.encode s

def ofJson (value : Json) : Except SettingsError Settings := do
  let s ← (Json.Decoder.fromValue record.decoder value).mapError .json
  s.validate

end Settings
end Reckoner
