import StatusEffects.Json.Decode
import StatusEffects.Name

/-!
What can be wrong with a configuration or a request, and how it is said.
-/

set_option autoImplicit false

namespace StatusEffects

inductive ParamsError where
  /-- They do not decode. -/
  | undecodable (error : Json.DecodeError)
  | negativeDuration
  /-- The reason given by a condition type of the host. -/
  | refused (reason : String)
deriving DecidableEq, Repr

def ParamsError.message : ParamsError → String
  | .undecodable error => error.message
  | .negativeDuration => "duration must not be negative"
  | .refused reason => reason

inductive InvalidConfig where
  | emptyStatName
  | defaultNotFinite (stat : StatName)
  | emptyEffectName
  /-- A modifier of an effect lasts as long as the effect and has no duration of its own. -/
  | modifierWithDuration (stat : StatName) (effect : EffectName)
deriving DecidableEq, Repr

def InvalidConfig.message : InvalidConfig → String
  | .emptyStatName => "stat type name must not be empty"
  | .defaultNotFinite stat => s!"default for stat '{stat}' is not finite"
  | .emptyEffectName => "effect id must not be empty"
  | .modifierWithDuration stat effect =>
    s!"modifier on '{stat}' of effect '{effect}' must not have its own duration"

inductive ConfigError where
  /-- The file cannot be read. -/
  | unreadable
  /-- The text does not decode. -/
  | undecodable
  | invalid (reason : InvalidConfig)
  | duplicateStat (stat : StatName)
  | duplicateEffect (effect : EffectName)
  | duplicateOperator (name : String)
  | duplicateConditionType (tag : String)
  | unknownConditionType (tag : String)
  | invalidParams (tag : String) (reason : ParamsError)
deriving DecidableEq, Repr

def ConfigError.message : ConfigError → String
  | .unreadable => "Failed to read config file"
  | .undecodable => "Failed to parse TOML"
  | .invalid reason => "Configuration validation error: " ++ reason.message
  | .duplicateStat stat => s!"Stat type '{stat}' is already registered"
  | .duplicateEffect effect => s!"Effect type '{effect}' is already registered"
  | .duplicateOperator name => s!"Operator '{name}' is already registered"
  | .duplicateConditionType tag => s!"Condition type '{tag}' is already registered"
  | .unknownConditionType tag => s!"Unknown condition type '{tag}'"
  | .invalidParams tag reason =>
    s!"Invalid parameters for condition type '{tag}': " ++ reason.message

inductive RequestError where
  | unknownEffect (effect : EffectName)
  | config (error : ConfigError)
deriving DecidableEq, Repr

def RequestError.message : RequestError → String
  | .unknownEffect effect => s!"Effect type '{effect}' is not registered"
  | .config error => error.message

end StatusEffects
