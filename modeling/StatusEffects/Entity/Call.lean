import StatusEffects.Entity.Snapshot

/-!
The calls that change an entity, with what each replies, and the answers that questions about an
entity can have.
-/

set_option autoImplicit false

namespace StatusEffects

inductive Call (π : Type) where
  | setBase (stat : StatName) (value : Float32)
  | setCurrent (stat : StatName) (value : Float32)
  /-- Takes a blank modifier from the pool. -/
  | acquireModifier
  /-- Takes a blank stack from the pool. -/
  | acquireStack
  /-- Adds a modifier. One on the stat of an effect becomes a stack of that effect. -/
  | addModifier (m : Modifier π) (source : Option SourceTag)
  | removeModifier (id : Handle)
  | removeModifiersOf (source : SourceTag)
  /-- Copies the modifiers of another entity, all of them or those of a source, except the ones that
  effects apply. -/
  | copyModifiers (other : Entity π) (source : Option SourceTag)
  | addStack (effect : EffectName) (stack : Stack π) (source : Option SourceTag)
  /-- Puts a stack in the place of all stacks of its source. -/
  | replaceStack (effect : EffectName) (stack : Stack π) (source : Option SourceTag)
  | removeStack (effect : EffectName) (id : Handle)
  | removeStacksOf (effect : EffectName) (source : SourceTag)
  /-- Takes an amount off the stacks without a source, newest first. -/
  | reduceStacks (effect : EffectName) (amount : UInt32)
  | removeEffect (effect : EffectName)
  /-- Settles every live effect again, since the answer about immunity may have changed. -/
  | refreshImmunity
  /-- Lets time pass for every timer. -/
  | passTime (delta : Float32)

abbrev Call.Reply {π : Type} : Call π → Type
  | .acquireModifier => Modifier π
  | .acquireStack => Stack π
  | .addModifier .. => Outcome
  | .removeModifier .. => Bool
  | .removeModifiersOf .. => Nat
  | .copyModifiers .. => Nat
  | .addStack .. => Except RequestError Outcome
  | .replaceStack .. => Except RequestError Outcome
  | .removeStack .. => Bool
  | .removeStacksOf .. => Nat
  | .reduceStacks .. => UInt32
  | .removeEffect .. => Bool
  | .setBase .. | .setCurrent .. | .refreshImmunity | .passTime .. => Unit

inductive Answer (π : Type) where
  | nothing
  | flag (value : Bool)
  | count (value : Nat)
  | outcome (value : Outcome)
  | refused (error : RequestError)
  | undecodable (error : Json.DecodeError)
  | numbers (values : List Float32)
  /-- Whether an effect applies, and how many of its stacks are active. -/
  | presence (active : Bool) (count : UInt32)
  | modifier (value : Option (Modifier π))
  | modifierForm (value : Option ModifierForm)
  | stack (value : Option (Stack π))
  | stackForm (value : Option StackForm)
  | countdown (value : Option Countdown)
  | snapshot (value : Snapshot)
  /-- The entity was set up again. -/
  | restored
  /-- A hook did nothing, since too many hooks were running. -/
  | tooManyHooks

end StatusEffects
