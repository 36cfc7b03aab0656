import StatusEffects.Effect.Form
import StatusEffects.Entity.Script

/-!
Effect definitions.
-/

set_option autoImplicit false

namespace StatusEffects

abbrev EffectHook (π : Type) := EffectName → Script π Unit

/-- An action that runs when a condition is met while the effect is live. -/
structure CustomEffect (π : Type) where
  condition : Condition π
  action : EffectHook π

structure EffectDefinition (π : Type) where
  effect : EffectName
  /-- The cap on the sum of stack values; zero is no cap. -/
  maxStack : UInt32
  stacking : Stacking
  /-- The duration of stacks that come without one. -/
  duration : Condition π
  /-- Modifiers that apply while the effect does, each times the active count. -/
  modifiers : List (Modifier π)
  customEffects : List (CustomEffect π)
  onActivate : Option (EffectHook π)
  onDeactivate : Option (EffectHook π)
  /-- Runs after a stack was added or merged. -/
  onAddStack : Option (EffectHook π)

namespace EffectDefinition

variable {π : Type}

def ofName (effect : EffectName) : EffectDefinition π where
  effect := effect
  maxStack := 0
  stacking := .merge
  duration := .absent
  modifiers := []
  customEffects := []
  onActivate := none
  onDeactivate := none
  onAddStack := none

/-- How much the cap leaves for more stacks when so many are active. -/
def room (d : EffectDefinition π) (count : UInt32) : UInt32 :=
  if d.maxStack = 0 then 0xffffffff - count
  else if count ≤ d.maxStack then d.maxStack - count else 0

def clamp (d : EffectDefinition π) (value : UInt32) : UInt32 :=
  if d.maxStack = 0 then value else min value d.maxStack

end EffectDefinition

namespace EffectForm

variable {π : Type}

/-- Builds the modifiers of an effect, none of which may have a duration of its own. -/
private def buildModifiers (types : ConditionTypes π) (effect : EffectName) :
    List ModifierForm → Except ConfigError (List (Modifier π))
  | [] => pure []
  | f :: rest => do
    match f.duration with
    | .node .. => throw (.invalid (.modifierWithDuration f.stat effect))
    | .absent =>
      let m ← f.build types
      return m :: (← buildModifiers types effect rest)

def build (types : ConditionTypes π) (f : EffectForm) :
    Except ConfigError (EffectDefinition π) := do
  if f.effect = "" then throw (.invalid .emptyEffectName)
  let duration ← types.build f.duration
  let modifiers ← buildModifiers types f.effect f.modifiers
  let definition : EffectDefinition π := .ofName f.effect
  pure { definition with
    maxStack := f.maxStack
    stacking := f.stacking
    duration := duration
    modifiers := modifiers }

end EffectForm

end StatusEffects
