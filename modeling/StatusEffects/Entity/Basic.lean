import StatusEffects.Effect.Live
import StatusEffects.Entity.StatValue
import StatusEffects.Entity.Timers
import StatusEffects.Entity.Watchers
import StatusEffects.Modifier.Lists

/-!
The state of an entity: its stats, modifiers and live effects, and who waits for what.
-/

set_option autoImplicit false

namespace StatusEffects

structure Entity (π : Type) where
  /-- The stats that were ever set; the others have their defaults. -/
  values : Table StatValue
  modifiers : ModifierLists π
  /-- The live effects by type. -/
  effects : Table (LiveEffect π)
  timers : Timers
  watchers : Watchers
  modifierPool : Pool (Modifier π)
  stackPool : Pool (Stack π)
  effectPool : Pool (LiveEffect π)
  /-- The stats whose modified hook runs. -/
  modifying : List StatName
  /-- The handle that is given next. -/
  nextHandle : Handle

namespace Entity

variable {π : Type}

def new : Entity π where
  values := ∅
  modifiers := .empty
  effects := ∅
  timers := .empty
  watchers := .empty
  modifierPool := .empty
  stackPool := .empty
  effectPool := .empty
  modifying := []
  nextHandle := 1

instance : Inhabited (Entity π) := ⟨new⟩

/-! ### Modifiers and effects -/

def modifier? (e : Entity π) (id : Handle) : Option (Modifier π) :=
  (e.modifiers.statOf? id).bind fun stat => e.modifiers.find? stat id

def stack? (e : Entity π) (effect : EffectName) (id : Handle) : Option (Stack π) :=
  (e.effects.get? effect).bind fun live => live.stack? id

def activeCount (e : Entity π) (effect : EffectName) : UInt32 :=
  ((e.effects.get? effect).map LiveEffect.count).getD 0

def hasEffect (e : Entity π) (effect : EffectName) : Bool :=
  (e.effects.get? effect).any LiveEffect.active

def modifyEffect (e : Entity π) (effect : EffectName) (change : LiveEffect π → LiveEffect π) :
    Entity π :=
  { e with effects := e.effects.modify effect change }

def modifyInstance (e : Entity π) (effect : EffectName) (serial : Handle)
    (change : LiveEffect π → LiveEffect π) : Entity π :=
  e.modifyEffect effect fun live => if live.serial = serial then change live else live

/-! ### Conditions -/

/-- The condition tree of an owner; absent if the owner is gone or has none. -/
def condition (e : Entity π) : Owner → Condition π
  | .modifier stat id => ((e.modifiers.find? stat id).map Modifier.duration).getD .absent
  | .stack effect id => ((e.stack? effect id).map Stack.duration).getD .absent
  | .custom effect serial index =>
    match e.effects.get? effect with
    | some live => if live.serial = serial then live.condition index else .absent
    | none => .absent

def setCondition (e : Entity π) (owner : Owner) (c : Condition π) : Entity π :=
  match owner with
  | .modifier stat id =>
    { e with modifiers := e.modifiers.modify stat id fun m => { m with duration := c } }
  | .stack effect id =>
    e.modifyEffect effect fun live => live.modifyStack id fun s => { s with duration := c }
  | .custom effect serial index =>
    e.modifyInstance effect serial fun live =>
      { live with conditions := live.conditions.set index c }

def subscribe (e : Entity π) (owner : Owner) (interests : Interests) : Entity π :=
  { e with
    timers := if interests.timer then e.timers.insert owner else e.timers
    watchers := interests.stats.keys.foldl (fun w stat => w.insert stat owner) e.watchers }

def unsubscribe (e : Entity π) (owner : Owner) : Entity π :=
  { e with timers := e.timers.remove owner, watchers := e.watchers.remove owner }

end Entity

end StatusEffects
