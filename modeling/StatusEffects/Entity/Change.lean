import StatusEffects.Entity.Basic

/-!
Quiet changes of an entity: handles and pools, and what comes, goes or is brought up to date without
a notice. The engine puts the notices between them.
-/

set_option autoImplicit false

namespace StatusEffects.Entity

variable {π : Type}

/-! ### Handles and pools -/

def takeHandle (e : Entity π) : Handle × Entity π :=
  (e.nextHandle, { e with nextHandle := e.nextHandle + 1 })

def acquireModifier (e : Entity π) : Modifier π × Entity π :=
  (e.modifierPool.acquire.1, { e with modifierPool := e.modifierPool.acquire.2 })

def releaseModifier (e : Entity π) (m : Modifier π) : Entity π :=
  { e with modifierPool := e.modifierPool.release m }

def acquireStack (e : Entity π) : Stack π × Entity π :=
  (e.stackPool.acquire.1, { e with stackPool := e.stackPool.acquire.2 })

def releaseStack (e : Entity π) (s : Stack π) : Entity π :=
  { e with stackPool := e.stackPool.release s }

/-- Takes a blank effect from the pool and gives it a serial number and an empty list of stacks. -/
def acquireEffect (e : Entity π) : LiveEffect π × Entity π :=
  ({ e.effectPool.acquire.1 with serial := e.nextHandle, held := e.stackPool.acquireList.1 },
    { e with
      effectPool := e.effectPool.acquire.2
      stackPool := e.stackPool.acquireList.2
      nextHandle := e.nextHandle + 1 })

/-! ### Modifiers -/

def addModifier [CustomTrigger π] (e : Entity π) (operators : OperatorTable) (m : Modifier π) :
    Entity π :=
  ({ e with modifiers := e.modifiers.insert operators m }).subscribe
    (.modifier m.stat m.id) m.duration.interests

def updateModifier (e : Entity π) (stat : StatName) (id : Handle) (m : Modifier π) : Entity π :=
  { e with modifiers := e.modifiers.modify stat id fun _ => m }

def dropModifier? (e : Entity π) (stat : StatName) (id : Handle) : Option (Entity π) :=
  (e.modifiers.remove? stat id).map fun (m, modifiers) =>
    (({ e with modifiers := modifiers }).unsubscribe (.modifier stat id)).releaseModifier m.detach

def retireModifiers (e : Entity π) (removed : List (Modifier π)) : Entity π :=
  removed.foldl (fun e m => (e.unsubscribe (.modifier m.stat m.id)).releaseModifier m.detach) e

def dropModifiersOf (e : Entity π) (source : SourceTag) : Entity π :=
  ({ e with modifiers := (e.modifiers.removeSource source).2 }).retireModifiers
    (e.modifiers.removeSource source).1

/-! ### Stacks -/

def pushStack [CustomTrigger π] (e : Entity π) (effect : EffectName) (s : Stack π) : Entity π :=
  (e.modifyEffect effect fun live => { live with held := live.held ++ [s] }).subscribe
    (.stack effect s.id) s.duration.interests

def updateStack (e : Entity π) (effect : EffectName) (id : Handle) (s : Stack π) : Entity π :=
  e.modifyEffect effect fun live => live.modifyStack id fun _ => s

def detachStack? (e : Entity π) (effect : EffectName) (id : Handle) : Option (Entity π) :=
  ((e.effects.get? effect).bind fun live => live.removeStack? id).map fun (s, live) =>
    (({ e with effects := e.effects.insert effect live }).unsubscribe (.stack effect id)).releaseStack
      s.detach

def detachStacks (e : Entity π) (effect : EffectName) : List Handle → Nat × Entity π
  | [] => (0, e)
  | id :: rest =>
    match e.detachStack? effect id with
    | none => e.detachStacks effect rest
    | some e =>
      let (removed, e) := e.detachStacks effect rest
      (removed + 1, e)

def setStacks (e : Entity π) (effect : EffectName) (held : List (Stack π)) : Entity π :=
  e.modifyEffect effect fun live => { live with held := held }

/-! ### Effects -/

def addEffect [CustomTrigger π] (e : Entity π) (live : LiveEffect π)
    (armed : List (Condition π)) : Entity π :=
  armed.zipIdx.foldl
    (fun e (c, index) => e.subscribe (.custom live.effect live.serial index) c.interests)
    { e with
      effects := e.effects.insert live.effect
        { live with conditions := live.conditions ++ armed } }

def dropEffect (e : Entity π) (effect : EffectName) (live : LiveEffect π) : Entity π :=
  let e := live.held.foldl (fun e s => e.unsubscribe (.stack effect s.id))
    { e with effects := e.effects.erase effect }
  let e := (List.range live.conditions.length).foldl
    (fun e index => e.unsubscribe (.custom effect live.serial index)) e
  { e with
    stackPool := e.stackPool.releaseList (live.held.map Stack.detach)
    effectPool := e.effectPool.release
      { live with held := [], conditions := live.conditions.map Condition.disarm } }

def storeCount (e : Entity π) (effect : EffectName) (count : UInt32) (active : Bool) : Entity π :=
  e.modifyEffect effect fun live => { live with count := count, active := active }

/-! ### What changes leave alone -/

/-- Taking out the modifiers of a source leaves the others in their order. -/
theorem get_dropModifiersOf (e : Entity π) (source : SourceTag) (stat : StatName) :
    (e.dropModifiersOf source).modifiers.get stat =
      (e.modifiers.get stat).filter fun m => m.source ≠ some source := by
  have same := List.foldlRecOn
    (motive := fun e' : Entity π => e'.modifiers = (e.modifiers.removeSource source).2)
    (e.modifiers.removeSource source).1
    (fun e m => (e.unsubscribe (.modifier m.stat m.id)).releaseModifier m.detach)
    (b := { e with modifiers := (e.modifiers.removeSource source).2 }) rfl fun _ same _ _ => same
  rw [← ModifierLists.get_removeSource, ← same]
  rfl

theorem mem_dropModifiersOf {e : Entity π} {source : SourceTag} {stat : StatName} {m : Modifier π} :
    m ∈ (e.dropModifiersOf source).modifiers.get stat ↔
      m ∈ e.modifiers.get stat ∧ m.source ≠ some source := by
  rw [get_dropModifiersOf, List.mem_filter, decide_eq_true_eq]

theorem retireModifiers_effects (e : Entity π) (removed : List (Modifier π)) :
    (e.retireModifiers removed).effects = e.effects :=
  List.foldlRecOn (motive := fun e' : Entity π => e'.effects = e.effects) removed _ rfl
    fun _ same _ _ => same

theorem dropModifiersOf_values (e : Entity π) (source : SourceTag) :
    (e.dropModifiersOf source).values = e.values :=
  List.foldlRecOn (motive := fun e' : Entity π => e'.values = e.values)
    (e.modifiers.removeSource source).1 _ rfl fun _ same _ _ => same

theorem dropModifiersOf_effects (e : Entity π) (source : SourceTag) :
    (e.dropModifiersOf source).effects = e.effects :=
  retireModifiers_effects { e with modifiers := (e.modifiers.removeSource source).2 } _

theorem addEffect_effects [CustomTrigger π] (e : Entity π) (live : LiveEffect π)
    (armed : List (Condition π)) :
    (e.addEffect live armed).effects =
      e.effects.insert live.effect { live with conditions := live.conditions ++ armed } :=
  List.foldlRecOn
    (motive := fun e' : Entity π => e'.effects =
      e.effects.insert live.effect { live with conditions := live.conditions ++ armed })
    armed.zipIdx _ rfl fun _ same _ _ => same

theorem addEffect_stats [CustomTrigger π] (e : Entity π) (live : LiveEffect π)
    (armed : List (Condition π)) :
    (e.addEffect live armed).values = e.values ∧
      (e.addEffect live armed).modifiers = e.modifiers :=
  List.foldlRecOn
    (motive := fun e' : Entity π => e'.values = e.values ∧ e'.modifiers = e.modifiers)
    armed.zipIdx _ ⟨rfl, rfl⟩ fun _ same _ _ => same

theorem dropEffect_effects (e : Entity π) (effect : EffectName) (live : LiveEffect π) :
    (e.dropEffect effect live).effects = e.effects.erase effect := by
  let erased : Entity π := { e with effects := e.effects.erase effect }
  have unheld := List.foldlRecOn
    (motive := fun e' : Entity π => e'.effects = erased.effects) live.held
    (fun e s => e.unsubscribe (.stack effect s.id)) (b := erased) rfl fun _ same _ _ => same
  exact List.foldlRecOn (motive := fun e' : Entity π => e'.effects = erased.effects)
    (List.range live.conditions.length)
    (fun e index => e.unsubscribe (.custom effect live.serial index)) unheld
    fun _ same _ _ => same

theorem dropEffect_stats (e : Entity π) (effect : EffectName) (live : LiveEffect π) :
    (e.dropEffect effect live).values = e.values ∧
      (e.dropEffect effect live).modifiers = e.modifiers := by
  have unheld := List.foldlRecOn
    (motive := fun e' : Entity π => e'.values = e.values ∧ e'.modifiers = e.modifiers) live.held
    (fun e s => e.unsubscribe (.stack effect s.id)) (b := { e with effects := e.effects.erase effect })
    ⟨rfl, rfl⟩ fun _ same _ _ => same
  exact List.foldlRecOn
    (motive := fun e' : Entity π => e'.values = e.values ∧ e'.modifiers = e.modifiers)
    (List.range live.conditions.length)
    (fun e index => e.unsubscribe (.custom effect live.serial index)) unheld
    fun _ same _ _ => same

theorem dropModifiersOf_nextHandle (e : Entity π) (source : SourceTag) :
    (e.dropModifiersOf source).nextHandle = e.nextHandle :=
  List.foldlRecOn (motive := fun e' : Entity π => e'.nextHandle = e.nextHandle)
    (e.modifiers.removeSource source).1 _ rfl fun _ same _ _ => same

theorem addEffect_nextHandle [CustomTrigger π] (e : Entity π) (live : LiveEffect π)
    (armed : List (Condition π)) : (e.addEffect live armed).nextHandle = e.nextHandle :=
  List.foldlRecOn (motive := fun e' : Entity π => e'.nextHandle = e.nextHandle) armed.zipIdx _ rfl
    fun _ same _ _ => same

theorem dropEffect_nextHandle (e : Entity π) (effect : EffectName) (live : LiveEffect π) :
    (e.dropEffect effect live).nextHandle = e.nextHandle := by
  have unheld := List.foldlRecOn (motive := fun e' : Entity π => e'.nextHandle = e.nextHandle)
    live.held (fun e s => e.unsubscribe (.stack effect s.id))
    (b := { e with effects := e.effects.erase effect }) rfl fun _ same _ _ => same
  exact List.foldlRecOn (motive := fun e' : Entity π => e'.nextHandle = e.nextHandle)
    (List.range live.conditions.length)
    (fun e index => e.unsubscribe (.custom effect live.serial index)) unheld
    fun _ same _ _ => same

/-- A tree that is put away while it is looked at is as if it had been changed in its place. -/
theorem setCondition_setCondition (e : Entity π) (owner : Owner) (c c' : Condition π) :
    (e.setCondition owner c).setCondition owner c' = e.setCondition owner c' := by
  cases owner with
  | modifier stat id =>
      unfold Entity.setCondition ModifierLists.modify
      dsimp only
      congr 2
      refine (Table.modify_modify ..).trans ?_
      congr 1
      funext list
      apply modifyFirst_modifyFirst
      exact fun _ there => there
  | stack effect id =>
      unfold Entity.setCondition Entity.modifyEffect
      dsimp only
      congr 1
      refine (Table.modify_modify ..).trans ?_
      congr 1
      funext live
      unfold LiveEffect.modifyStack
      dsimp only
      congr 1
      apply modifyFirst_modifyFirst
      exact fun _ there => there
  | custom effect serial index =>
      unfold Entity.setCondition Entity.modifyInstance Entity.modifyEffect
      dsimp only
      congr 1
      refine (Table.modify_modify ..).trans ?_
      congr 1
      funext live
      by_cases same : live.serial = serial
      · simp only [if_pos same, List.set_set]
      · simp only [if_neg same]

end StatusEffects.Entity
