import StatusEffects.Proofs.Endings
import StatusEffects.Snapshot

/-!
Runs: the worlds that calls lead to, and the inductions that carry a relation from the parts of the
engine to whole calls.

A nested request is served with one level less, so what follows for a request when nested ones
behave holds at every number of levels.
-/

set_option autoImplicit false

namespace StatusEffects

variable {π : Type}

/-- The worlds between outermost calls: an entity begins with nothing on it or is set up from a
snapshot, and calls are made on it one after the other, each with as many levels as it takes. -/
inductive Reached [CustomTrigger π] (rules : Rulebook π) (snapshots : Snapshot → Prop)
    (calls : Entity π → Call π → Prop) : World π → Prop where
  | new : Reached rules snapshots calls (.ofEntity .new)
  | restored {levels : Nat} {snapshot : Snapshot} {w : World π} (admitted : snapshots snapshot)
      (restores : snapshot.restore rules levels = .ok (.ok ()) w) :
      Reached rules snapshots calls w
  | called {levels : Nat} {w w' : World π} {c : Call π} {reply : c.Reply}
      (before : Reached rules snapshots calls w) (admitted : calls w.entity c)
      (returns : Engine.perform rules levels c w = .ok reply w') :
      Reached rules snapshots calls w'

/-- The scripts that rules start, each as the hook that it is. -/
inductive Rulebook.Starts (rules : Rulebook π) : Hook → Script π Unit → Prop where
  | activated {effect : EffectName} {d : EffectDefinition π} {hook : EffectHook π}
      (registered : rules.effects.get? effect = some d) (there : d.onActivate = some hook) :
      Starts rules (.activated effect) (hook effect)
  | deactivated {effect : EffectName} {d : EffectDefinition π} {hook : EffectHook π}
      (registered : rules.effects.get? effect = some d) (there : d.onDeactivate = some hook) :
      Starts rules (.deactivated effect) (hook effect)
  | stackAdded {effect : EffectName} {d : EffectDefinition π} {hook : EffectHook π}
      (registered : rules.effects.get? effect = some d) (there : d.onAddStack = some hook) :
      Starts rules (.stackAdded effect) (hook effect)
  | custom {effect : EffectName} {serial : Handle} {index : Nat} {d : EffectDefinition π}
      {custom : CustomEffect π} (registered : rules.effects.get? effect = some d)
      (there : d.customEffects[index]? = some custom) :
      Starts rules (.custom effect serial index) (custom.action effect)
  | modified {stat : StatName} {hook : StatName → Script π Unit}
      (registered : rules.modifiedHooks.get? stat = some hook) :
      Starts rules (.modified stat) (hook stat)

def Hook.isFlip : Hook → Bool
  | .activated _ | .deactivated _ => true
  | _ => false

def Hook.ofFlip (effect : EffectName) : (active : Bool) → Hook
  | true => .activated effect
  | false => .deactivated effect

def Rulebook.flipScript? (rules : Rulebook π) (effect : EffectName) :
    (active : Bool) → Option (EffectHook π)
  | true => (rules.effects.get? effect).bind EffectDefinition.onActivate
  | false => (rules.effects.get? effect).bind EffectDefinition.onDeactivate

theorem Rulebook.Starts.ofFlip {rules : Rulebook π} {effect : EffectName} {active : Bool}
    {script : EffectHook π} (there : rules.flipScript? effect active = some script) :
    rules.Starts (.ofFlip effect active) (script effect) := by
  cases active with
  | true =>
      obtain ⟨d, registered, hook⟩ := Option.bind_eq_some_iff.1 there
      exact .activated registered hook
  | false =>
      obtain ⟨d, registered, hook⟩ := Option.bind_eq_some_iff.1 there
      exact .deactivated registered hook

def Occurrence.isOfTime : Occurrence π → Bool
  | .walkStarted .. | .turn .. | .walkEnded .. | .stimulated _ (.time _) .. => true
  | _ => false

/-- Whether an occurrence is a notice, a question or a note, and tells neither of a call by a hook,
of a change to stacks or to the modifiers of an effect, nor how time passes. -/
def Occurrence.isPlain : Occurrence π → Bool
  | .called .. | .stackPushed .. | .renewalStarted .. | .renewed .. | .renewalEnded .. | .modifierTaken ..
  | .effectRemoved .. | .walkStarted .. | .turn .. | .walkEnded ..
  | .stimulated _ (.time _) .. => false
  | _ => true

namespace Act

/-- A way to record plain occurrences that show the entity as it is, or do not show it. -/
def Plain (mark : Entity π → Occurrence π) : Prop :=
  ∀ e, (mark e).isPlain = true ∧ ∀ seen, (mark e).seen? = some seen → seen = e

def Ignored (relation : World π → World π → Prop) : Prop :=
  ∀ mark : Entity π → Occurrence π, Plain mark → (record mark).Keeps relation

def OfTime (mark : Entity π → Occurrence π) : Prop :=
  ∀ e, (mark e).isOfTime = true ∧ ∀ seen, (mark e).seen? = some seen → seen = e

def Timeless (relation : World π → World π → Prop) : Prop :=
  ∀ mark : Entity π → Occurrence π, OfTime mark → (record mark).Keeps relation

private theorem sees_same {seen e : Entity π} (same : some e = some seen) : seen = e :=
  (Option.some.inj same).symm

theorem Plain.statChanged (stat : StatName) : Plain (.statChanged (π := π) stat) :=
  fun _ => ⟨rfl, fun _ => sees_same⟩

theorem Plain.effectChanged (effect : EffectName) : Plain (.effectChanged (π := π) effect) :=
  fun _ => ⟨rfl, fun _ => sees_same⟩

theorem Plain.stacksChanged (effect : EffectName) : Plain (.stacksChanged (π := π) effect) :=
  fun _ => ⟨rfl, fun _ => sees_same⟩

theorem Plain.hookStarted (hook : Hook) : Plain (.hookStarted (π := π) hook) :=
  fun _ => ⟨rfl, fun _ => sees_same⟩

theorem Plain.hookEnded (hook : Hook) : Plain (.hookEnded (π := π) hook) :=
  fun _ => ⟨rfl, fun _ => sees_same⟩

theorem Plain.noted (answer : Answer π) : Plain (fun _ => .noted answer) :=
  fun _ => ⟨rfl, fun _ none => by cases none⟩

theorem Plain.consulted : Plain (π := π) .consulted :=
  fun _ => ⟨rfl, fun _ => sees_same⟩

theorem Plain.observed (owner : Owner) (stat : StatName) :
    Plain (π := π) fun e => .stimulated owner (.stat stat) (e.condition owner) e :=
  fun _ => ⟨rfl, fun _ => sees_same⟩

theorem Plain.restarted (owner : Owner) :
    Plain (π := π) fun e => .stimulated owner .restart (e.condition owner) e :=
  fun _ => ⟨rfl, fun _ => sees_same⟩

theorem OfTime.walkStarted (delta : Float32) : OfTime (.walkStarted (π := π) delta) :=
  fun _ => ⟨rfl, fun _ => sees_same⟩

theorem OfTime.turn (owner : Owner) : OfTime (.turn (π := π) owner) :=
  fun _ => ⟨rfl, fun _ => sees_same⟩

theorem OfTime.walkEnded : OfTime (π := π) .walkEnded :=
  fun _ => ⟨rfl, fun _ => sees_same⟩

theorem OfTime.ticked (owner : Owner) (delta : Float32) :
    OfTime (π := π) fun e => .stimulated owner (.time delta) (e.condition owner) e :=
  fun _ => ⟨rfl, fun _ => sees_same⟩

theorem Ignored.consulted {relation : World π → World π → Prop} (steady : Steady relation)
    (ignored : Ignored relation) : (Act.consulted : Act π (Entity π)).Keeps relation :=
  steady.bind (ignored _ .consulted) fun _ => Keeps.entity steady

end Act

namespace Engine

open Act

variable [CustomTrigger π] {rules : Rulebook π} {nested : Nested π}
  {relation : World π → World π → Prop}

/-! ### Steps that are put together of others -/

section

variable (steady : Steady relation)

include steady

omit [CustomTrigger π] in
theorem updateCondition_keeps {α : Type} (ignored : Ignored relation) {owner : Owner}
    (sets : ∀ c, (modifyEntity fun e => e.setCondition owner c).Keeps relation)
    (change : Readings → Condition π → Condition π × α) :
    (updateCondition rules owner change).Keeps relation := by
  refine steady.bind (Keeps.entity steady) fun e => ?_
  cases e.condition owner with
  | absent => exact steady.pure none
  | node head next alternative =>
      refine steady.bind (sets _) fun _ => ?_
      refine steady.bind (ignored.consulted steady) fun e => ?_
      exact steady.bind (sets _) fun _ => steady.pure _

theorem stimulate_keeps (ignored : Ignored relation) (timeless : Timeless relation) {owner : Owner}
    (sets : ∀ c, (modifyEntity fun e => e.setCondition owner c).Keeps relation)
    (stimulus : Stimulus) : (stimulate rules owner stimulus).Keeps relation := by
  have marks : (record fun e => .stimulated owner stimulus (e.condition owner) e).Keeps
      relation := by
    cases stimulus with
    | time delta => exact timeless _ (.ticked owner delta)
    | stat name => exact ignored _ (.observed owner name)
    | restart => exact ignored _ (.restarted owner)
  refine steady.bind (updateCondition_keeps steady ignored sets _) fun result => ?_
  cases result with
  | none => exact steady.pure false
  | some changed => exact steady.bind marks fun _ => steady.pure _

omit [CustomTrigger π] in
theorem runHook_keeps {hook : Hook} {effect : EffectName} {script : Option (EffectHook π)}
    (runs : ∀ s, script = some s → (nested (.run hook (s effect))).Keeps relation) :
    (runHook nested hook effect script).Keeps relation := by
  cases script with
  | none => exact steady.pure ()
  | some script => exact runs script rfl

omit [CustomTrigger π] steady in
theorem announceFlip_eq (effect : EffectName) (active : Bool) :
    announceFlip nested rules effect active = (do
      runHook nested (.ofFlip effect active) effect (rules.flipScript? effect active)
      announceEffect effect) := by
  cases active with
  | true => rfl
  | false => rfl

omit [CustomTrigger π] in
theorem announceFlip_keeps (ignored : Ignored relation)
    (runs : ∀ hook script, rules.Starts hook script → (nested (.run hook script)).Keeps relation)
    (effect : EffectName) (active : Bool) :
    (announceFlip nested rules effect active).Keeps relation := by
  rw [announceFlip_eq]
  exact steady.bind (runHook_keeps steady fun _ there => runs _ _ (.ofFlip there))
    fun _ => ignored _ (.effectChanged effect)

omit [CustomTrigger π] in
theorem removeModifier_keeps {id : Handle}
    (taken : ∀ stat, (record (.modifierTaken stat id)).Keeps relation)
    (removes : ∀ stat, (removeModifierAt nested stat id).Keeps relation) :
    (removeModifier nested id).Keeps relation := by
  refine steady.bind (Keeps.entity steady) fun e => ?_
  cases e.modifiers.statOf? id with
  | none => exact steady.pure false
  | some stat => exact steady.bind (taken stat) fun _ => removes stat

omit [CustomTrigger π] in
theorem removeIfEmpty_keeps {effect : EffectName}
    (removes : (removeLive nested rules effect).Keeps relation) :
    (removeIfEmpty nested rules effect).Keeps relation := by
  refine steady.bind (Keeps.entity steady) fun e => ?_
  split
  · exact removes
  · exact steady.pure ()

omit [CustomTrigger π] in
theorem removeEffect_keeps {effect : EffectName}
    (removes : (removeLive nested rules effect).Keeps relation) :
    (removeEffect nested rules effect).Keeps relation := by
  refine steady.bind (Keeps.entity steady) fun e => ?_
  split
  · exact steady.bind removes fun _ => steady.pure true
  · exact steady.pure false

theorem refreshImmunity_keeps (settles : ∀ effect, (settle nested rules effect).Keeps relation) :
    (refreshImmunity nested rules).Keeps relation :=
  steady.bind (Keeps.entity steady) fun _ => steady.forM _ fun effect _ => settles effect

theorem settleModifiers_keeps {effect : EffectName}
    (renews : ∀ definition, rules.effects.get? effect = some definition → ∀ active count,
      (renewModifiers nested rules definition active count).Keeps relation) (v : Verdict) :
    (settleModifiers nested rules effect v).Keeps relation := by
  unfold settleModifiers
  cases registered : rules.effects.get? effect with
  | none => exact steady.pure true
  | some definition =>
      dsimp only
      split
      · exact steady.bind (renews definition registered v.active v.count) fun _ =>
          steady.bind (Keeps.entity steady) fun _ => steady.pure _
      · exact steady.pure true

omit [CustomTrigger π] in
theorem settleEnd_keeps {effect : EffectName} (drains : (drain effect).Keeps relation)
    (empties : (removeIfEmpty nested rules effect).Keeps relation) (v : Verdict) :
    (settleEnd nested rules effect v).Keeps relation := by
  unfold settleEnd
  split
  · exact steady.bind drains fun _ => empties
  · exact steady.pure ()

/-- After the flip of an effect its modifiers are applied anew, and what is used up goes. -/
theorem settleRest_keeps {effect : EffectName}
    (renews : ∀ definition, rules.effects.get? effect = some definition → ∀ active count,
      (renewModifiers nested rules definition active count).Keeps relation)
    (drains : (drain effect).Keeps relation)
    (empties : (removeIfEmpty nested rules effect).Keeps relation) (v : Verdict) (still : Bool) :
    Keeps relation (do
      if still then
        if ← settleModifiers nested rules effect v then
          settleEnd nested rules effect v) := by
  split
  · refine steady.bind (settleModifiers_keeps steady renews v) fun still => ?_
    split
    · exact settleEnd_keeps steady drains empties v
    · exact steady.pure ()
  · exact steady.pure ()

theorem settle_keeps {effect : EffectName} (counts : (recount rules effect).Keeps relation)
    (flips : ∀ active, (announceFlip nested rules effect active).Keeps relation)
    (renews : ∀ definition, rules.effects.get? effect = some definition → ∀ active count,
      (renewModifiers nested rules definition active count).Keeps relation)
    (drains : (drain effect).Keeps relation)
    (removes : (removeLive nested rules effect).Keeps relation) :
    (settle nested rules effect).Keeps relation := by
  have flip (v : Verdict) : (settleFlip nested rules effect v).Keeps relation := by
    unfold settleFlip
    split
    · exact steady.bind (flips v.active) fun _ =>
        steady.bind (Keeps.entity steady) fun _ => steady.pure _
    · exact steady.pure true
  refine steady.bind counts fun found => ?_
  cases found with
  | none => exact steady.pure ()
  | some v => exact steady.bind (flip v) fun still =>
      settleRest_keeps steady renews drains (removeIfEmpty_keeps steady removes) v still

theorem settleStacks_keeps (ignored : Ignored relation)
    (settles : ∀ effect, (settle nested rules effect).Keeps relation) (effect : EffectName) :
    (settleStacks nested rules effect).Keeps relation :=
  steady.bind (ignored _ (.stacksChanged effect)) fun _ => settles effect

theorem copyModifiers_keeps (modifiers : List (Modifier π))
    (inserts : ∀ m ∈ modifiers, Keeps relation (do
      let blank ← Act.updateEntity Entity.acquireModifier
      insertModifier nested rules (blank.configure m) m.source)) :
    (copyModifiers nested rules modifiers).Keeps relation := by
  refine steady.foldlM _ (fun m member copied w => ?_) 0
  have inserted := inserts m member w
  simp only [yields_bind] at inserted ⊢
  refine inserted.mono fun blank w₁ next => next.mono fun outcome w' done => ?_
  rw [yields_pure]
  exact done

/-- The modifiers of an effect are taken away, and then each of them is put together and inserted. -/
theorem renewModifiers_keeps {definition : EffectDefinition π}
    (starts : (record (.renewalStarted definition.effect)).Keeps relation)
    (removes : (removeModifiersOf nested (SourceTag.ofEffect definition.effect)).Keeps relation)
    (inserts : ∀ template : Modifier π, ∀ count : UInt32, Keeps relation (do
      let m := (← Act.updateEntity Entity.acquireModifier).configure template
      let m := { m with value := m.value * count.toFloat32 }
      Act.record (.renewed definition.effect m)
      let _ ← insertModifier nested rules m (SourceTag.ofEffect definition.effect)))
    (ends : (record (.renewalEnded definition.effect)).Keeps relation) (active : Bool)
    (count : UInt32) : (renewModifiers nested rules definition active count).Keeps relation := by
  refine steady.bind starts fun _ => ?_
  refine steady.bind removes fun _ => ?_
  split
  · exact steady.bind (steady.forM _ fun template _ => inserts template count) fun _ => ends
  · exact ends

theorem addStack_keeps (effect : EffectName) (s : Stack π) (source : Option SourceTag)
    (released : (modifyEntity fun e => e.releaseStack s).Keeps relation)
    (adds : ∀ definition, rules.effects.get? effect = some definition →
      (addStackOf nested rules definition s source).Keeps relation) :
    (addStack nested rules effect s source).Keeps relation := by
  unfold addStack
  cases registered : rules.effects.get? effect with
  | none => exact steady.bind released fun _ => steady.pure _
  | some definition =>
      intro w
      rw [yields_map]
      exact adds definition registered w

theorem replaceStack_keeps (effect : EffectName) (s : Stack π) (source : Option SourceTag)
    (released : (modifyEntity fun e => e.releaseStack s).Keeps relation)
    (removes : ∀ tag, source = some tag →
      (removeStacksOf nested rules effect tag).Keeps relation)
    (adds : (addStack nested rules effect s source).Keeps relation) :
    (replaceStack nested rules effect s source).Keeps relation := by
  unfold replaceStack
  split
  · cases source with
    | none => exact adds
    | some tag => exact steady.bind (removes tag rfl) fun _ => adds
  · exact steady.bind released fun _ => steady.pure _

theorem customStimulated_keeps (effect : EffectName) (serial : Handle) (index : Nat)
    (runs : ∀ hook script, rules.Starts hook script → hook.isFlip = false →
      (nested (.run hook script)).Keeps relation)
    (restarts : (stimulate rules (.custom effect serial index) .restart).Keeps relation) :
    (customStimulated nested rules effect serial index).Keeps relation := by
  refine steady.bind (Keeps.entity steady) fun e => ?_
  cases e.condition (.custom effect serial index) with
  | absent => exact steady.pure ()
  | node head next alternative =>
      have restart : Keeps relation (do
          if head.restartsOnMet then
            let _ ← stimulate rules (.custom effect serial index) .restart) := by
        split
        · exact steady.bind restarts fun _ => steady.pure ()
        · exact steady.pure ()
      dsimp only
      split
      · split
        · rename_i custom there
          obtain ⟨d, registered, there⟩ := Option.bind_eq_some_iff.1 there
          exact steady.bind (runs _ _ (.custom registered there) rfl) fun _ => restart
        · exact restart
      · exact restart

end

/-! ### Nesting -/

theorem serve_keeps (spec : Request π → World π → World π → Prop)
    (announce : ∀ nested : Nested π, (∀ r, (nested r).Keeps (spec r)) →
      ∀ stat, (announceStat nested rules stat).Keeps (spec (.announce stat)))
    (run : ∀ nested : Nested π, (∀ r, (nested r).Keeps (spec r)) →
      ∀ hook script, (runHookScript nested rules hook script).Keeps (spec (.run hook script)))
    (levels : Nat) (r : Request π) : (serve rules levels r).Keeps (spec r) := by
  induction levels generalizing r with
  | zero =>
      intro w
      rw [serve, yields_throw]
      trivial
  | succ levels ih =>
      cases r with
      | announce stat => exact announce (serve rules levels) ih stat
      | run hook script => exact run (serve rules levels) ih hook script

/-! ### Scripts -/

theorem runScriptWith_keeps {α : Type} (steady : Steady relation) (ignored : Ignored relation)
    (called : ∀ c w, (performWith nested rules c).Yields w fun reply w' =>
      relation w { w' with trace := .called c reply w'.entity :: w'.trace })
    (script : Script π α) : (runScriptWith nested rules script).Keeps relation := by
  induction script with
  | done result => exact steady.pure result
  | call c next ih =>
      intro w
      rw [runScriptWith, yields_bind]
      refine (called c w).mono fun reply w₁ before => ?_
      rw [yields_bind, yields_record]
      exact steady.yields before (ih reply)
  | look next ih =>
      intro w
      rw [runScriptWith, sight]
      simp only [yields_bind, yields_get, yields_pure]
      exact ih _ w
  | note answer next ih =>
      rw [runScriptWith]
      exact steady.bind (ignored _ (.noted answer)) fun _ => ih

theorem runHookScript_keeps (steady : Steady relation) (ignored : Ignored relation)
    (aside : ∀ w running, relation w { w with running := running })
    (hook : Hook) {script : Script π Unit}
    (runs : (runScriptWith nested rules script).Keeps relation) :
    (runHookScript nested rules hook script).Keeps relation := by
  have modified (change : List Hook → List Hook) : Keeps (α := PUnit) relation
      (modify fun w : World π => { w with running := change w.running }) := by
    intro w
    rw [yields_modify]
    exact aside w _
  unfold runHookScript
  refine steady.bind (modified _) fun _ => ?_
  refine steady.bind (ignored _ (.hookStarted hook)) fun _ => ?_
  refine steady.bind runs fun _ => ?_
  exact steady.bind (ignored _ (.hookEnded hook)) fun _ => modified _

/-! ### Events -/

theorem expose_keeps (steady : Steady relation) {owner : Owner} {stimulus : Stimulus}
    (stimulates : (stimulate rules owner stimulus).Keeps relation)
    (reacts : (react nested rules owner).Keeps relation) :
    (expose nested rules owner stimulus).Keeps relation := by
  refine steady.bind stimulates fun changed => ?_
  split
  · exact reacts
  · exact steady.pure ()

theorem announceStat_keeps (steady : Steady relation) (ignored : Ignored relation) {stat : StatName}
    (exposes : ∀ owner, (expose nested rules owner (.stat stat)).Keeps relation) :
    (announceStat nested rules stat).Keeps relation := by
  refine steady.bind (ignored _ (.statChanged stat)) fun _ => ?_
  refine steady.bind (Keeps.entity steady) fun e => steady.forM _ fun owner _ => ?_
  refine steady.bind (Keeps.entity steady) fun e => ?_
  split
  · exact exposes owner
  · exact steady.pure ()

theorem takeTurn_keeps (steady : Steady relation) (timeless : Timeless relation) {delta : Float32}
    (exposes : ∀ owner, (expose nested rules owner (.time delta)).Keeps relation) (index : Nat) :
    (takeTurn nested rules delta index).Keeps relation := by
  refine steady.bind (Keeps.entity steady) fun e => ?_
  dsimp only
  cases e.timers.owners[index]? with
  | none => exact steady.pure ()
  | some owner =>
      refine steady.bind (timeless _ (.turn owner)) fun _ => ?_
      split
      · exact exposes owner
      · exact steady.pure ()

theorem passTime_keeps (steady : Steady relation) (timeless : Timeless relation)
    (walks : ∀ change : Timers → Timers, change = Timers.startWalk ∨ change = Timers.endWalk → ∀ w,
      relation w { w with entity := { w.entity with timers := change w.entity.timers } })
    {delta : Float32} (exposes : ∀ owner, (expose nested rules owner (.time delta)).Keeps relation) :
    (passTime nested rules delta).Keeps relation := by
  have modified (change : Timers → Timers)
      (walk : change = Timers.startWalk ∨ change = Timers.endWalk) : Keeps relation
        (modifyEntity fun e : Entity π => { e with timers := change e.timers }) := by
    intro w
    rw [yields_modifyEntity]
    exact walks change walk w
  unfold passTime
  refine steady.bind (timeless _ (.walkStarted delta)) fun _ => ?_
  refine steady.bind (Keeps.entity steady) fun e => ?_
  refine steady.bind (modified _ (.inl rfl)) fun _ => ?_
  have turns := takeTurn_keeps steady timeless exposes
  refine steady.bind (steady.forM _ fun index _ => turns index) fun _ => ?_
  exact steady.bind (modified _ (.inr rfl)) fun _ => timeless _ .walkEnded

omit [CustomTrigger π] in
theorem runModified_keeps (steady : Steady relation) {stat : StatName}
    (aside : ∀ w modifying,
      relation w { w with entity := { w.entity with modifying := modifying } })
    (runs : ∀ hook script, rules.Starts hook script → hook.isFlip = false →
      (nested (.run hook script)).Keeps relation) :
    Keeps relation (match rules.modifiedHooks.get? stat with
      | none => Pure.pure ()
      | some hook => do
        if stat ∉ (← Act.entity).modifying then
          modifyEntity fun e => { e with modifying := stat :: e.modifying }
          nested (.run (.modified stat) (hook stat))
          modifyEntity fun e => { e with modifying := e.modifying.filter (· ≠ stat) }) := by
  have modified (change : List StatName → List StatName) : Keeps relation
      (modifyEntity fun e : Entity π => { e with modifying := change e.modifying }) := by
    intro w
    rw [yields_modifyEntity]
    exact aside w _
  cases there : rules.modifiedHooks.get? stat with
  | none => exact steady.pure ()
  | some hook =>
      refine steady.bind (Keeps.entity steady) fun e => ?_
      split
      · refine steady.bind (modified _) fun _ => ?_
        exact steady.bind (runs _ _ (.modified there) rfl) fun _ => modified _
      · exact steady.pure ()

omit [CustomTrigger π] in
theorem setStat_keeps (steady : Steady relation) {stat : StatName}
    (stored : ∀ change : StatValue → StatValue, (do
      modifyEntity fun e : Entity π =>
        { e with values := e.values.insert stat (change (rules.stat e stat)) }
      nested (.announce stat)).Keeps relation)
    (aside : ∀ w modifying,
      relation w { w with entity := { w.entity with modifying := modifying } })
    (runs : ∀ hook script, rules.Starts hook script → hook.isFlip = false →
      (nested (.run hook script)).Keeps relation)
    (change : StatValue → StatValue) : (setStat nested rules stat change).Keeps relation := by
  intro w
  have first := stored change w
  unfold setStat statModified
  simp only [yields_bind, yields_modifyEntity] at first ⊢
  exact first.mono fun _ _ before => steady.yields before (runModified_keeps steady aside runs)

/-! ### Snapshots -/

theorem addParts_keeps (steady : Steady relation) {levels : Nat} {snapshot : Snapshot}
    (modifiers : ∀ form ∈ snapshot.modifiers, ∀ m, form.build rules.conditionTypes = .ok m →
      (insertModifier (serve rules levels) rules m form.source).Keeps relation)
    (adds : ∀ effect, ∀ form : StackForm, ∀ s, form.build rules.conditionTypes = .ok s →
      (addStack (serve rules levels) rules effect s form.source).Keeps relation) :
    Keeps relation (snapshot.addParts rules levels).run := by
  unfold Snapshot.addParts
  refine steady.bindE (steady.forME _ fun form member => ?_) fun _ => ?_
  · unfold Snapshot.addModifier
    cases built : form.build rules.conditionTypes with
    | error e => exact steady.pure _
    | ok m => exact steady.bindE (steady.bind (modifiers form member m built) fun _ =>
        steady.pure _) fun _ => steady.pure _
  · refine steady.forME _ fun live _ => steady.forME _ fun form _ => ?_
    unfold Snapshot.addStack
    cases built : form.build rules.conditionTypes with
    | error e => exact steady.pure _
    | ok s => exact steady.bindE (adds live.effect form s built) fun _ => steady.pure _

/-! ### Runs that are given by their calls -/

def performAll (rules : Rulebook π) (levels : Nat) : List (Call π) → World π → Option (World π)
  | [], w => some w
  | c :: rest, w =>
    match perform rules levels c w with
    | .ok _ w' => performAll rules levels rest w'
    | .error _ _ => none

theorem reached_of_performAll {snapshots : Snapshot → Prop} {calls : Entity π → Call π → Prop}
    {levels : Nat} {list : List (Call π)} {w w' : World π} (before : Reached rules snapshots calls w)
    (admitted : ∀ c ∈ list, ∀ e, calls e c) (made : performAll rules levels list w = some w') :
    Reached rules snapshots calls w' := by
  induction list generalizing w with
  | nil =>
      cases made
      exact before
  | cons c rest ih =>
      rw [performAll] at made
      split at made
      · rename_i reply w₁ returns
        refine ih (.called before (admitted c (List.mem_cons_self ..) _) returns) ?_ made
        exact fun other member => admitted other (List.mem_cons_of_mem _ member)
      · cases made

theorem perform_of_performAll {levels : Nat} {c : Call π} {w w' : World π}
    (made : performAll rules levels [c] w = some w') :
    ∃ reply, perform rules levels c w = .ok reply w' := by
  rw [performAll] at made
  split at made
  · rename_i reply w₁ returns
    cases made
    exact ⟨reply, returns⟩
  · cases made

end Engine

/-- A game that adds no triggers. -/
instance : CustomTrigger Empty where
  tag := nofun
  isMet := nofun
  usesTimer := nofun
  watched := nofun
  tick := nofun
  restart := nofun
  params := nofun

end StatusEffects
