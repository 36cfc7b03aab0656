import StatusEffects.Entity.Script

/-!
The steps of a scenario: scripts that end with an answer. Hooks are lists of steps.
-/

set_option autoImplicit false

namespace StatusEffects.Scenario

inductive ConditionError where
  | undecodable (error : Json.DecodeError)
  | config (error : ConfigError)

def ConditionError.answer {π : Type} : ConditionError → Answer π
  | .undecodable error => .undecodable error
  | .config error => .refused (.config error)

namespace Step

variable {π : Type}

open Script (request sight)

/-! ### Stats -/

def setBase (stat : StatName) (value : Float32) : Script π (Answer π) := do
  request (.setBase stat value)
  return .nothing

def setCurrent (stat : StatName) (value : Float32) : Script π (Answer π) := do
  request (.setCurrent stat value)
  return .nothing

def addCurrent (stat : StatName) (value : Float32) : Script π (Answer π) := do
  let v := (← sight).stat stat
  request (.setCurrent stat (v.current + value))
  return .nothing

def capCurrent (stat : StatName) : Script π (Answer π) := do
  let s ← sight
  let limit := s.calculate stat .standard
  if limit < (s.stat stat).current then request (.setCurrent stat limit)
  return .nothing

def calculate (stat : StatName) (selection : Selection) : Script π (Answer π) := do
  let s ← sight
  return .numbers [s.calculate stat ⟨true, selection.ignoreHidden⟩, s.calculate stat selection,
    s.calculatePlain stat selection]

def stat (stat : StatName) : Script π (Answer π) := do
  let v := (← sight).stat stat
  return .numbers [v.base, v.current]

/-! ### Modifiers -/

/-- Adds a modifier, filled into one from the pool if `pooled`. -/
def addModifier (m : Except ConditionError (Modifier π)) (source : Option SourceTag)
    (pooled : Bool) : Script π (Answer π) := do
  match m with
  | .error e => return e.answer
  | .ok m =>
    let blank ← if pooled then request .acquireModifier else pure .blank
    let filled := { blank with
      stat := m.stat, op := m.op, value := m.value, hidden := m.hidden, duration := m.duration }
    return .outcome (← request (.addModifier filled source))

def removeModifier (id : Handle) : Script π (Answer π) :=
  return .flag (← request (.removeModifier id))

def removeModifiersOf (source : SourceTag) : Script π (Answer π) :=
  return .count (← request (.removeModifiersOf source))

def modifier (id : Handle) : Script π (Answer π) := return .modifier ((← sight).entity.modifier? id)

def modifierForm [CustomTrigger π] (id : Handle) : Script π (Answer π) :=
  return .modifierForm (((← sight).entity.modifier? id).map Modifier.form)

/-! ### Stacks and effects -/

private def outcome : Except RequestError Outcome → Answer π
  | .ok value => .outcome value
  | .error e => .refused e

def addStack (replace : Bool) (effect : EffectName) (value : UInt32)
    (duration : Except ConditionError (Condition π)) (source : Option SourceTag) :
    Script π (Answer π) := do
  match duration with
  | .error e => return e.answer
  | .ok duration =>
    let filled := { ← request .acquireStack with value := value, duration := duration }
    if replace then return outcome (← request (.replaceStack effect filled source))
    else return outcome (← request (.addStack effect filled source))

def removeStack (effect : EffectName) (id : Handle) : Script π (Answer π) :=
  return .flag (← request (.removeStack effect id))

def removeStacksOf (effect : EffectName) (source : SourceTag) : Script π (Answer π) :=
  return .count (← request (.removeStacksOf effect source))

def reduceStacks (effect : EffectName) (amount : UInt32) : Script π (Answer π) :=
  return .count (← request (.reduceStacks effect amount)).toNat

def removeEffect (effect : EffectName) : Script π (Answer π) :=
  return .flag (← request (.removeEffect effect))

def refreshImmunity : Script π (Answer π) := do
  request .refreshImmunity
  return .nothing

def isImmune (effect : EffectName) : Script π (Answer π) := return .flag ((← sight).isImmune effect)

def presence (effect : EffectName) : Script π (Answer π) := do
  let e := (← sight).entity
  return .presence (e.hasEffect effect) (e.activeCount effect)

def stack (effect : EffectName) (id : Handle) : Script π (Answer π) :=
  return .stack ((← sight).entity.stack? effect id)

def stackForm [CustomTrigger π] (effect : EffectName) (id : Handle) : Script π (Answer π) :=
  return .stackForm (((← sight).entity.stack? effect id).map Stack.form)

def customCountdown (effect : EffectName) (index : Nat) : Script π (Answer π) := do
  let live := (← sight).entity.effects.get? effect
  return .countdown (live.bind fun live => (live.condition index).countdown?)

/-! ### Time and the whole -/

def passTime (delta : Float32) : Script π (Answer π) := do
  request (.passTime delta)
  return .nothing

def snapshot [CustomTrigger π] : Script π (Answer π) := return .snapshot (← sight).entity.snapshot

/-! ### Hooks -/

def hookLimit : Nat := 4

def noted : List (Script π (Answer π)) → Script π Unit
  | [] => .done ()
  | step :: rest => do
    let answer ← step
    .note answer (noted rest)

/-- The script of a hook. When too many hooks run it only notes that. -/
def hook (steps : List (Script π (Answer π))) : Script π Unit := do
  if hookLimit < (← sight).running.length then .note .tooManyHooks (.done ())
  else noted steps

end Step

end StatusEffects.Scenario
