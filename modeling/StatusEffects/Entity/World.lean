import StatusEffects.Entity.Call

/-!
An entity together with what has happened to it.

The trace holds every notification with the entity as its listeners saw it, every hook, and every
change of a condition tree through an event. It only grows, and it is kept when a call fails.
-/

set_option autoImplicit false

namespace StatusEffects

/-- A hook of a game that runs at certain moments. -/
inductive Hook where
  | activated (effect : EffectName)
  | deactivated (effect : EffectName)
  | stackAdded (effect : EffectName)
  /-- The action of a custom effect of a live effect. -/
  | custom (effect : EffectName) (serial : Handle) (index : Nat)
  /-- A stat was set. -/
  | modified (stat : StatName)
deriving DecidableEq, Repr

inductive Stimulus where
  | time (delta : Float32)
  | stat (name : StatName)
  | restart
deriving DecidableEq, Repr

/-- Something that happened, with the entity as it was then. -/
inductive Occurrence (π : Type) where
  /-- The listeners to stat changes were called. -/
  | statChanged (stat : StatName) (seen : Entity π)
  /-- The listeners to effects that begin or cease to apply were called. -/
  | effectChanged (effect : EffectName) (seen : Entity π)
  /-- The listeners to changes of stacks were called. -/
  | stacksChanged (effect : EffectName) (seen : Entity π)
  | hookStarted (hook : Hook) (seen : Entity π)
  | hookEnded (hook : Hook) (seen : Entity π)
  /-- A hook made a call, which came back. -/
  | called (call : Call π) (reply : call.Reply) (seen : Entity π)
  /-- Time began to pass. -/
  | walkStarted (delta : Float32) (seen : Entity π)
  /-- The turn of an owner came, whether or not it still waits. -/
  | turn (owner : Owner) (seen : Entity π)
  | walkEnded (seen : Entity π)
  /-- An event went through the tree of an owner and left it in this state. -/
  | stimulated (owner : Owner) (stimulus : Stimulus) (left : Condition π) (seen : Entity π)
  /-- A hook left a note. -/
  | noted (answer : Answer π)
  /-- The rules of the game are asked for values of stats or for an immunity. -/
  | consulted (seen : Entity π)
  /-- A stack is about to join its live effect. -/
  | stackPushed (effect : EffectName) (stack : Stack π) (seen : Entity π)
  /-- The modifiers of an effect are about to be applied anew, for which the earlier ones go. -/
  | renewalStarted (effect : EffectName) (seen : Entity π)
  /-- A modifier of an effect is about to be applied. -/
  | renewed (effect : EffectName) (m : Modifier π) (seen : Entity π)
  | renewalEnded (effect : EffectName) (seen : Entity π)
  /-- A modifier is about to be taken out by its handle. -/
  | modifierTaken (stat : StatName) (id : Handle) (seen : Entity π)
  /-- A live effect is gone, and its modifiers are about to go. -/
  | effectRemoved (effect : EffectName) (seen : Entity π)

def Occurrence.seen? {π : Type} : Occurrence π → Option (Entity π)
  | .noted _ => none
  | .statChanged _ seen | .effectChanged _ seen | .stacksChanged _ seen | .hookStarted _ seen
  | .hookEnded _ seen | .called _ _ seen | .walkStarted _ seen | .turn _ seen | .walkEnded seen
  | .stimulated _ _ _ seen | .consulted seen | .stackPushed _ _ seen | .renewalStarted _ seen
  | .renewed _ _ seen | .renewalEnded _ seen | .modifierTaken _ _ seen | .effectRemoved _ seen =>
    some seen

/-- Why a call does not come back. -/
inductive Fault where
  /-- The active stacks of an effect add up to `2 ^ 32` or more. -/
  | countOverflow (effect : EffectName)
  /-- Notifications and hooks are nested deeper than allowed. -/
  | nestedTooDeep
deriving DecidableEq, Repr

def Fault.message : Fault → String
  | .countOverflow effect => s!"active stack count of '{effect}' overflowed"
  | .nestedTooDeep => "notifications are nested too deep"

structure World (π : Type) where
  entity : Entity π
  /-- The hooks that run, the innermost first. -/
  running : List Hook
  /-- What happened, the latest first. -/
  trace : List (Occurrence π)

def World.ofEntity {π : Type} (e : Entity π) : World π := ⟨e, [], []⟩

/-- Steps that change a world and may fail; what happened before a failure stays. -/
abbrev Act (π : Type) := EStateM Fault (World π)

namespace Act

variable {π : Type}

def entity : Act π (Entity π) := return (← get).entity

def setEntity (e : Entity π) : Act π Unit := modify fun w => { w with entity := e }

def modifyEntity (change : Entity π → Entity π) : Act π Unit :=
  modify fun w => { w with entity := change w.entity }

def updateEntity {α : Type} (change : Entity π → α × Entity π) : Act π α :=
  modifyGet fun w =>
    let (value, entity) := change w.entity
    (value, { w with entity := entity })

def record (occurrence : Entity π → Occurrence π) : Act π Unit :=
  modify fun w => { w with trace := occurrence w.entity :: w.trace }

/-- The entity as it is, for questions to the rules of the game. -/
def consulted : Act π (Entity π) := do
  record .consulted
  entity

end Act

end StatusEffects
