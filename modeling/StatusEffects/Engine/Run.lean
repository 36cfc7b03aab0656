import StatusEffects.Engine.Effects

/-!
The engine as a whole: calls, scripts, reactions to events, and the nesting of all of them.

`Engine.serve` ties the knot: it answers a nested request with the engine of one level less. A call
on an entity is `Engine.perform` with some number of levels to spend; a call that comes back does so
with every larger number too.
-/

set_option autoImplicit false

namespace StatusEffects.Engine

variable {π : Type} [CustomTrigger π] (nested : Nested π) (rules : Rulebook π)

/-! ### Reactions to events -/

/-- The condition of a custom effect changed: its action runs if the condition is met, and the
condition starts again if it should. -/
def customStimulated (effect : EffectName) (serial : Handle) (index : Nat) : Act π Unit := do
  let owner := Owner.custom effect serial index
  match (← Act.entity).condition owner with
  | .absent => pure ()
  | .node head next alternative =>
    -- Some node changed, which need not mean that the tree was unmet before.
    if (Condition.node head next alternative).holds false then
      match (rules.effects.get? effect).bind fun d => d.customEffects[index]? with
      | some custom => nested (.run (.custom effect serial index) (custom.action effect))
      | none => pure ()
    if head.restartsOnMet then
      let _ ← stimulate rules owner .restart

def react : Owner → Act π Unit
  | .modifier stat id => modifierStimulated nested stat id
  | .stack effect id => stackStimulated nested rules effect id
  | .custom effect serial index => customStimulated nested rules effect serial index

def expose (owner : Owner) (stimulus : Stimulus) : Act π Unit := do
  if ← stimulate rules owner stimulus then react nested rules owner

/-- Calls the listeners to changes of a stat, then lets every condition that watches it look again.
An owner that has stopped watching meanwhile is left out. -/
def announceStat (stat : StatName) : Act π Unit := do
  Act.record (.statChanged stat)
  (← Act.entity).watchers.get stat |>.forM fun owner => do
    if owner ∈ (← Act.entity).watchers.get stat then
      expose nested rules owner (.stat stat)

def takeTurn (delta : Float32) (index : Nat) : Act π Unit := do
  let timers := (← Act.entity).timers
  match timers.owners[index]? with
  | none => pure ()
  | some owner =>
    Act.record (.turn owner)
    if owner ∉ timers.leaving then
      expose nested rules owner (.time delta)

/-- Lets time pass for every owner that waits for it now. Owners that leave before their turn are
left out, and owners that come later wait for the next time. -/
def passTime (delta : Float32) : Act π Unit := do
  Act.record (.walkStarted delta)
  let count := (← Act.entity).timers.owners.length
  Act.modifyEntity fun e => { e with timers := e.timers.startWalk }
  (List.range count).forM (takeTurn nested rules delta)
  Act.modifyEntity fun e => { e with timers := e.timers.endWalk }
  Act.record .walkEnded

/-! ### Setting stats -/

/-- A stat was set: announce it, then run its modified hook unless that runs already. -/
def statModified (stat : StatName) : Act π Unit := do
  nested (.announce stat)
  match rules.modifiedHooks.get? stat with
  | none => pure ()
  | some hook =>
    if stat ∉ (← Act.entity).modifying then
      Act.modifyEntity fun e => { e with modifying := stat :: e.modifying }
      nested (.run (.modified stat) (hook stat))
      Act.modifyEntity fun e => { e with modifying := e.modifying.filter (· ≠ stat) }

def setStat (stat : StatName) (change : StatValue → StatValue) : Act π Unit := do
  Act.modifyEntity fun e => { e with values := e.values.insert stat (change (rules.stat e stat)) }
  statModified nested rules stat

/-! ### Calls and scripts -/

def performWith : (c : Call π) → Act π c.Reply
  | .setBase stat value => setStat nested rules stat fun v => { v with base := value }
  | .setCurrent stat value => setStat nested rules stat fun v => { v with current := value }
  | .acquireModifier => Act.updateEntity Entity.acquireModifier
  | .acquireStack => Act.updateEntity Entity.acquireStack
  | .addModifier m source => addModifier nested rules m source
  | .removeModifier id => removeModifier nested id
  | .removeModifiersOf source => removeModifiersOf nested source
  | .copyModifiers other source =>
    copyModifiers nested rules <|
      (other.modifiers.ofSource source).filter fun m => !m.source.any SourceTag.isOfEffect
  | .addStack effect s source => addStack nested rules effect s source
  | .replaceStack effect s source => replaceStack nested rules effect s source
  | .removeStack effect id => removeStack nested rules effect id
  | .removeStacksOf effect source => removeStacksOf nested rules effect source
  | .reduceStacks effect amount => reduceStacks nested rules effect amount
  | .removeEffect effect => removeEffect nested rules effect
  | .refreshImmunity => refreshImmunity nested rules
  | .passTime delta => passTime nested rules delta

def sight : Act π (Sight π) := do
  let w ← get
  pure { toView := rules.view w.entity, isImmune := rules.isImmune w.entity, running := w.running }

def runScriptWith {α : Type} : Script π α → Act π α
  | .done result => pure result
  | .call c next => do
    let reply ← performWith nested rules c
    Act.record (.called c reply)
    runScriptWith (next reply)
  | .look next => do runScriptWith (next (← sight rules))
  | .note answer next => do
    Act.record fun _ => .noted answer
    runScriptWith next

def runHookScript (hook : Hook) (script : Script π Unit) : Act π Unit := do
  modify fun w => { w with running := hook :: w.running }
  Act.record (.hookStarted hook)
  runScriptWith nested rules script
  Act.record (.hookEnded hook)
  modify fun w => { w with running := w.running.tail }

/-! ### Nesting -/

/-- Serves nested requests with so many levels to spend. -/
def serve : (levels : Nat) → Nested π
  | 0, _ => throw .nestedTooDeep
  | levels + 1, .announce stat => announceStat (serve levels) rules stat
  | levels + 1, .run hook script => runHookScript (serve levels) rules hook script

def perform (levels : Nat) (c : Call π) : Act π c.Reply := performWith (serve rules levels) rules c

def runScript {α : Type} (levels : Nat) (script : Script π α) : Act π α :=
  runScriptWith (serve rules levels) rules script

end StatusEffects.Engine
