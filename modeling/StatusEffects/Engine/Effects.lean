import StatusEffects.Engine.Modifiers

/-!
Effects come and go: stacks are added, merged and removed, and every change is settled. Settling
counts the active stacks, runs hooks when the effect begins or ceases to apply, applies its
modifiers anew and removes what is used up.
-/

set_option autoImplicit false

namespace StatusEffects.Engine

variable {π : Type} (nested : Nested π) (rules : Rulebook π)

def runHook (hook : Hook) (effect : EffectName) (script : Option (EffectHook π)) : Act π Unit :=
  match script with
  | some script => nested (.run hook (script effect))
  | none => pure ()

/-- Runs the hook for an effect that begins or ceases to apply, and calls the listeners. -/
def announceFlip (effect : EffectName) (active : Bool) : Act π Unit := do
  if active then
    runHook nested (.activated effect) effect
      ((rules.effects.get? effect).bind EffectDefinition.onActivate)
  else
    runHook nested (.deactivated effect) effect
      ((rules.effects.get? effect).bind EffectDefinition.onDeactivate)
  announceEffect effect

/-! ### Removing effects -/

def removeLive (effect : EffectName) : Act π Unit := do
  match (← Act.entity).effects.get? effect with
  | none => pure ()
  | some live =>
    Act.modifyEntity fun e => e.dropEffect effect live
    Act.record (.effectRemoved effect)
    let _ ← removeModifiersOf nested (SourceTag.ofEffect effect)
    -- By now a condition may have made the effect live again.
    if live.active then announceFlip nested rules effect false

def removeIfEmpty (effect : EffectName) : Act π Unit := do
  if ((← Act.entity).effects.get? effect).any fun live => live.held.isEmpty then
    removeLive nested rules effect

def drain (effect : EffectName) : Act π Unit := do
  match (← Act.entity).effects.get? effect with
  | none => pure ()
  | some live =>
    if !live.sourcelessStacks.isEmpty then
      Act.modifyEntity fun e => (e.detachStacks effect live.sourcelessStacks).2
      announceStacks effect

/-! ### Settling -/

structure Verdict where
  serial : Handle
  /-- The number of its active stacks. -/
  count : UInt32
  /-- Whether it applies. -/
  active : Bool
  /-- Whether the count is another one than before. -/
  counted : Bool
  /-- Whether it begins or ceases to apply. -/
  flipped : Bool
deriving DecidableEq, Repr

/-- Whether a live effect is still as settling found it. A nested settling may have gone further. -/
def Verdict.holds (v : Verdict) (e : Entity π) (effect : EffectName) : Bool :=
  (e.effects.get? effect).any fun live =>
    live.serial = v.serial && live.count = v.count && live.active = v.active

/-- Counts the active stacks of an effect, and stores the count and whether the effect applies. -/
def recount (effect : EffectName) : Act π (Option Verdict) := do
  match (← Act.entity).effects.get? effect with
  | none => pure none
  | some live =>
    if UInt32.size ≤ live.activeSum then throw (.countOverflow live.effect)
    else
      let count := live.activeSum.toUInt32
      let active := 0 < count && !rules.isImmune (← Act.consulted) effect
      Act.modifyEntity fun e => e.storeCount effect count active
      pure (some ⟨live.serial, count, active, live.count != count, live.active != active⟩)

def settleFlip (effect : EffectName) (v : Verdict) : Act π Bool := do
  if v.flipped then
    announceFlip nested rules effect v.active
    pure (v.holds (← Act.entity) effect)
  else pure true

def settleEnd (effect : EffectName) (v : Verdict) : Act π Unit := do
  if v.count = 0 then
    drain effect
    removeIfEmpty nested rules effect

variable [CustomTrigger π]

/-- Applies the modifiers of an effect anew, each times the active count. -/
def renewModifiers (definition : EffectDefinition π) (active : Bool) (count : UInt32) :
    Act π Unit := do
  let source := SourceTag.ofEffect definition.effect
  Act.record (.renewalStarted definition.effect)
  let _ ← removeModifiersOf nested source
  if active then
    definition.modifiers.forM fun template => do
      let m := (← Act.updateEntity Entity.acquireModifier).configure template
      -- The count is the one that settling found. An earlier template may have made it another one.
      let m := { m with value := m.value * count.toFloat32 }
      Act.record (.renewed definition.effect m)
      let _ ← insertModifier nested rules m source
  Act.record (.renewalEnded definition.effect)

def Verdict.renews (v : Verdict) (definition : EffectDefinition π) : Bool :=
  !definition.modifiers.isEmpty && (v.flipped || (v.active && v.counted))

def settleModifiers (effect : EffectName) (v : Verdict) : Act π Bool := do
  match rules.effects.get? effect with
  | none => pure true
  | some definition =>
    if v.renews definition then
      renewModifiers nested rules definition v.active v.count
      pure (v.holds (← Act.entity) effect)
    else pure true

/-- Counts the active stacks of an effect and settles everything that depends on the count. What a
nested settling has done meanwhile is left as it is. -/
def settle (effect : EffectName) : Act π Unit := do
  match ← recount rules effect with
  | none => pure ()
  | some v =>
    if ← settleFlip nested rules effect v then
      if ← settleModifiers nested rules effect v then
        settleEnd nested rules effect v

def settleStacks (effect : EffectName) : Act π Unit := do
  announceStacks effect
  settle nested rules effect

/-! ### Removing stacks -/

def removeStack (effect : EffectName) (id : Handle) : Act π Bool := do
  match (← Act.entity).detachStack? effect id with
  | none => pure false
  | some e =>
    Act.setEntity e
    settleStacks nested rules effect
    pure true

def removeStacksOf (effect : EffectName) (source : SourceTag) : Act π Nat := do
  match (← Act.entity).effects.get? effect with
  | none => pure 0
  | some live =>
    let removed ← Act.updateEntity fun e => e.detachStacks effect (live.stacksOf source)
    if 0 < removed then settleStacks nested rules effect
    pure removed

/-- Takes an amount off stacks without a source, in the order of the list. Gives the stacks, what is
left of the amount, and the handles of the stacks that came to zero. -/
def drawDown : (amount : UInt32) → List (Stack π) → List (Stack π) × UInt32 × List Handle
  | amount, [] => ([], amount, [])
  | amount, s :: rest =>
    if s.isSourced || amount = 0 then
      let (held, left, emptied) := drawDown amount rest
      (s :: held, left, emptied)
    else
      let taken := min s.value amount
      let (held, left, emptied) := drawDown (amount - taken) rest
      ({ s with value := s.value - taken } :: held, left,
        if s.value = taken then s.id :: emptied else emptied)

def reduceStacks (effect : EffectName) (amount : UInt32) : Act π UInt32 := do
  match (← Act.entity).effects.get? effect with
  | none => pure 0
  | some live =>
    let (held, left, emptied) := drawDown amount live.held.reverse
    if amount - left = 0 then pure 0
    else
      Act.modifyEntity fun e => ((e.setStacks effect held.reverse).detachStacks effect emptied).2
      settleStacks nested rules effect
      pure (amount - left)

def removeEffect (effect : EffectName) : Act π Bool := do
  if (← Act.entity).effects.contains effect then
    removeLive nested rules effect
    pure true
  else pure false

def refreshImmunity : Act π Unit := do
  (← Act.entity).effects.keys.forM fun effect => settle nested rules effect

/-- The activity of a stack changed: it goes if nobody owns it, and the effect is settled. -/
def stackFlipped (effect : EffectName) (id : Handle) : Act π Unit := do
  match (← Act.entity).stack? effect id with
  | none => pure ()
  | some s =>
    if !s.active && !s.isSourced then
      let _ ← removeStack nested rules effect id
    else settleStacks nested rules effect

def stackStimulated (effect : EffectName) (id : Handle) : Act π Unit := do
  match (← Act.entity).stack? effect id with
  | none => pure ()
  | some s =>
    Act.modifyEntity fun e => e.updateStack effect id s.refresh.1
    if s.refresh.2 then stackFlipped nested rules effect id

/-! ### Adding stacks -/

/-- Makes an effect live and arms its custom effects; says whether it was not live before. -/
def ensureLive (definition : EffectDefinition π) : Act π Bool := do
  if (← Act.entity).effects.contains definition.effect then pure false
  else
    let live ← Act.updateEntity Entity.acquireEffect
    let readings := rules.readings (← Act.consulted)
    Act.modifyEntity fun e => e.addEffect { live with effect := definition.effect }
      (definition.customEffects.map fun custom => custom.condition.pristine.arm readings)
    pure true

def pushStack (effect : EffectName) (s : Stack π) : Act π Outcome := do
  if (← Act.entity).effects.contains effect then
    Act.record (.stackPushed effect s)
    Act.modifyEntity fun e => e.pushStack effect s
    pure (.stack s.id)
  else
    Act.modifyEntity fun e => e.releaseStack s.detach
    pure .discarded

def pushCapped (effect : EffectName) (s : Stack π) (value : UInt32) : Act π Outcome := do
  if value = 0 then
    Act.modifyEntity fun e => e.releaseStack s.detach
    pure .discarded
  else pushStack effect { s with value := value }

/-- Lets a duration grow by another one: time is added to a countdown if both are countdowns,
otherwise either of the two ends the stack. -/
def extendDuration (readings : Readings) (existing extra : Condition π) : Condition π :=
  match existing.countdown?, extra.countdown? with
  | some _, some c => ((existing.mapCountdown (·.extend c.timeLeft)).review readings).1
  | _, _ => existing.orElse (extra.pristine.arm readings)

def mergedDuration (stacking : Stacking) (readings : Readings) (existing incoming : Condition π) :
    Condition π :=
  match stacking, incoming with
  | .restart, _ => existing.restart readings
  | .extend, .absent => existing
  | .extend, .node head next alternative =>
    extendDuration readings existing (.node head next alternative)
  | .merge, _ => existing
  | .separate, _ => existing

def mergeDuration (definition : EffectDefinition π) (target : Handle) (incoming : Stack π) :
    Act π Unit := do
  let owner := Owner.stack definition.effect target
  match ← updateCondition rules owner fun readings existing =>
      (mergedDuration definition.stacking readings existing incoming.duration, ()) with
  | none => pure ()
  | some _ => Act.modifyEntity fun e => e.subscribe owner (e.condition owner).interests

def mergedValue (definition : EffectDefinition π) (existing incoming : UInt32) : UInt32 :=
  definition.clamp
    (if existing.toNat + incoming.toNat < UInt32.size then existing + incoming else 0xffffffff)

def mergeStack (definition : EffectDefinition π) (target : Handle) (incoming : Stack π) :
    Act π Outcome := do
  mergeDuration rules definition target incoming
  Act.modifyEntity fun e => e.releaseStack incoming.detach
  match (← Act.entity).stack? definition.effect target with
  | none => pure .discarded
  | some s =>
    let s := { s with value := mergedValue definition s.value incoming.value }
    Act.modifyEntity fun e => e.updateStack definition.effect target s.refresh.1
    if s.refresh.2 then stackFlipped nested rules definition.effect target
    pure (.merged target)

/-- Adds an attached stack to its live effect, merges it or drops it. -/
def placeStack (definition : EffectDefinition π) (s : Stack π) : Act π Outcome := do
  if !s.active && !s.isSourced then
    Act.modifyEntity fun e => e.releaseStack s.detach
    pure .discarded
  else if s.isSourced then pushStack definition.effect s
  else if definition.stacking = .separate then
    pushCapped definition.effect s
      (min s.value (definition.room ((← Act.entity).activeCount definition.effect)))
  else
    match ((← Act.entity).effects.get? definition.effect).bind LiveEffect.firstSourceless? with
    | some target => mergeStack nested rules definition target s
    | none => pushCapped definition.effect s (definition.clamp s.value)

def stackDuration (definition : EffectDefinition π) : Condition π → Condition π
  | .absent => definition.duration.pristine
  | .node head next alternative => .node head next alternative

def addStackOf (definition : EffectDefinition π) (s : Stack π) (source : Option SourceTag) :
    Act π Outcome := do
  let created ← ensureLive rules definition
  let id ← Act.updateEntity Entity.takeHandle
  let s := ({ s with duration := stackDuration definition s.duration, id := id }).attach
    (rules.readings (← Act.consulted)) source
  let outcome ← placeStack nested rules definition s
  if outcome.isApplied then
    settleStacks nested rules definition.effect
    runHook nested (.stackAdded definition.effect) definition.effect definition.onAddStack
  else if created then removeIfEmpty nested rules definition.effect
  pure outcome

/-- Adds a stack, which waits in the pool if its effect is not registered. -/
def addStack (effect : EffectName) (s : Stack π) (source : Option SourceTag) :
    Act π (Except RequestError Outcome) := do
  match rules.effects.get? effect with
  | some definition => .ok <$> addStackOf nested rules definition s source
  | none =>
    Act.modifyEntity fun e => e.releaseStack s
    pure (.error (.unknownEffect effect))

def replaceStack (effect : EffectName) (s : Stack π) (source : Option SourceTag) :
    Act π (Except RequestError Outcome) := do
  if rules.effects.contains effect then
    match source with
    | some source =>
      -- These stacks are gone even if the new one is refused.
      let _ ← removeStacksOf nested rules effect source
    | none => pure ()
    addStack nested rules effect s source
  else
    Act.modifyEntity fun e => e.releaseStack s
    pure (.error (.unknownEffect effect))

/-- Adds a modifier. One on the stat of an effect becomes a stack of that effect, its value rounded
to a whole count. -/
def addModifier (m : Modifier π) (source : Option SourceTag) : Act π Outcome := do
  match rules.effects.get? m.stat with
  | some definition =>
    let s ← Act.updateEntity Entity.acquireStack
    Act.modifyEntity fun e => e.releaseModifier m
    addStackOf nested rules definition
      { s with value := Single.toCount m.value, duration := m.duration } source
  | none => insertModifier nested rules m source

end StatusEffects.Engine
