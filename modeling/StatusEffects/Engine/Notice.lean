import StatusEffects.Entity.Change
import StatusEffects.Rulebook

/-!
Notices: how the engine tells listeners, hooks and condition trees what happened.

Announcing a stat and running a hook can start anything again. Such requests go to `Nested`, the
same engine with one level of nesting less to spend; everything else is direct.
-/

set_option autoImplicit false

namespace StatusEffects

/-- What the engine asks of itself one level deeper. -/
inductive Request (π : Type) where
  /-- A stat changed: call its listeners and let conditions look at it. -/
  | announce (stat : StatName)
  /-- Run a hook. -/
  | run (hook : Hook) (script : Script π Unit)

abbrev Nested (π : Type) := Request π → Act π Unit

namespace Engine

variable {π : Type}

def announceStacks (effect : EffectName) : Act π Unit := Act.record (.stacksChanged effect)

def announceEffect (effect : EffectName) : Act π Unit := Act.record (.effectChanged effect)

/-- Lets an event go through the condition tree of an owner, if there is one. The tree is out of its
place while it looks at the entity. -/
def updateCondition {α : Type} (rules : Rulebook π) (owner : Owner)
    (change : Readings → Condition π → Condition π × α) : Act π (Option α) := do
  match (← Act.entity).condition owner with
  | .absent => pure none
  | .node head next alternative =>
    Act.modifyEntity fun e => e.setCondition owner .absent
    let changed := change (rules.readings (← Act.consulted)) (.node head next alternative)
    Act.modifyEntity fun e => e.setCondition owner changed.1
    pure (some changed.2)

variable [CustomTrigger π]

/-- What an event makes of a condition tree, and whether any result changed. Nobody is told of a
restart. -/
def Stimulus.apply (stimulus : Stimulus) (readings : Readings) (c : Condition π) :
    Condition π × Bool :=
  match stimulus with
  | .time delta => c.tick delta readings
  | .stat name => c.observe name readings
  | .restart => (c.restart readings, false)

def stimulate (rules : Rulebook π) (owner : Owner) (stimulus : Stimulus) : Act π Bool := do
  match ← updateCondition rules owner (Stimulus.apply stimulus) with
  | none => pure false
  | some changed =>
    Act.record fun e => .stimulated owner stimulus (e.condition owner) e
    pure changed

end Engine

end StatusEffects
