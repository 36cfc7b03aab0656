import StatusEffects.Engine.Run

/-!
Setting an entity up again from a snapshot.
-/

set_option autoImplicit false

namespace StatusEffects.Snapshot

variable {π : Type} [CustomTrigger π] (rules : Rulebook π) (levels : Nat)

def addModifier (form : ModifierForm) : ExceptT RequestError (Act π) Unit := do
  match form.build rules.conditionTypes with
  | .error e => throw (.config e)
  | .ok m =>
    let _ ← Engine.insertModifier (Engine.serve rules levels) rules m form.source

def addStack (effect : EffectName) (form : StackForm) : ExceptT RequestError (Act π) Unit := do
  match form.build rules.conditionTypes with
  | .error e => throw (.config e)
  | .ok stack =>
    let _ ← ExceptT.mk <|
      Engine.addStack (Engine.serve rules levels) rules effect stack form.source

/-- Adds the parts of a snapshot one by one; the first part that is refused ends it. -/
def addParts (s : Snapshot) : ExceptT RequestError (Act π) Unit := do
  -- Every part is judged by the stats as the parts before it have left them.
  s.modifiers.forM (addModifier rules levels)
  s.effects.forM fun live => live.held.forM (addStack rules levels live.effect)

/-- Sets up an entity with the stats of a snapshot, then its modifiers, then its stacks. -/
def restore (s : Snapshot) : EStateM.Result Fault (World π) (Except RequestError Unit) :=
  EStateM.run (s.addParts rules levels) (.ofEntity { Entity.new with values := s.stats })

end StatusEffects.Snapshot
