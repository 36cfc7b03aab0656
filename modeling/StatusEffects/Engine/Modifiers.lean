import StatusEffects.Engine.Notice

/-!
Modifiers come and go.
-/

set_option autoImplicit false

namespace StatusEffects.Engine

variable {π : Type} (nested : Nested π)

def removeModifierAt (stat : StatName) (id : Handle) : Act π Bool := do
  match (← Act.entity).dropModifier? stat id with
  | none => pure false
  | some e =>
    Act.setEntity e
    nested (.announce stat)
    pure true

def removeModifier (id : Handle) : Act π Bool := do
  match (← Act.entity).modifiers.statOf? id with
  | none => pure false
  | some stat =>
    Act.record (.modifierTaken stat id)
    removeModifierAt nested stat id

/-- Removes the modifiers of a source and announces each of their stats once; says how many there
were. -/
def removeModifiersOf (source : SourceTag) : Act π Nat := do
  let removed := (← Act.entity).modifiers.ofSource (some source)
  if removed.isEmpty then pure 0
  else
    Act.modifyEntity fun e => e.dropModifiersOf source
    let stats : Table Unit := removed.foldl (fun stats m => stats.insert m.stat ()) ∅
    stats.keys.forM fun stat => nested (.announce stat)
    pure removed.length

variable [CustomTrigger π] (rules : Rulebook π)

/-- Adds a modifier to the list of its stat, unless it is expired and nobody owns it. -/
def insertModifier (m : Modifier π) (source : Option SourceTag) : Act π Outcome := do
  let id ← Act.updateEntity Entity.takeHandle
  let m := ({ m with id := id }).attach (rules.readings (← Act.consulted)) source
  if !m.active && !m.isSourced then
    Act.modifyEntity fun e => e.releaseModifier m.detach
    pure .discarded
  else
    Act.modifyEntity fun e => e.addModifier rules.operators m
    nested (.announce m.stat)
    pure (.modifier id)

def copyModifiers (modifiers : List (Modifier π)) : Act π Nat :=
  modifiers.foldlM (fun copied m => do
    let blank ← Act.updateEntity Entity.acquireModifier
    let outcome ← insertModifier nested rules (blank.configure m) m.source
    pure (if outcome.isApplied then copied + 1 else copied)) 0

/-- The duration of a modifier changed: it changes its activity, and goes if nobody owns it. -/
def modifierStimulated (stat : StatName) (id : Handle) : Act π Unit := do
  match (← Act.entity).modifiers.find? stat id with
  | none => pure ()
  | some m =>
    let changed := m.refresh.2
    let m := m.refresh.1
    Act.modifyEntity fun e => e.updateModifier stat id m
    if changed then
      if !m.active && !m.isSourced then
        let _ ← removeModifierAt nested stat id
      else nested (.announce stat)

end StatusEffects.Engine
