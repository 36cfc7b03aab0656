import StatusEffects.Proofs.Stacking

/-!
Counts that overflow.

A call fails where the active stacks of an effect add up to more than its count can hold, or where
notices are nested too deep. Whenever an effect is counted its stacks without a source are within the
limit of the effect, so a count only overflows once a stack with a source has joined.

The bookkeeping is in order wherever a step may fail: before a step that may count, what came before
has come back.
-/

set_option autoImplicit false

namespace StatusEffects

variable {π : Type}

namespace Act

variable {α β : Type}

/-! ### Steps that fail -/

/-- Whenever a step fails from a world, the fault and the world it leaves pass a test. -/
def Fails (m : Act π α) (w : World π) (test : Fault → World π → Prop) : Prop :=
  ∀ f w', m w = .error f w' → test f w'

@[simp] theorem fails_pure (a : α) (w : World π) (test : Fault → World π → Prop) :
    Fails (pure a : Act π α) w test ↔ True :=
  iff_true_intro fun _ _ ends => nomatch ends

@[simp] theorem fails_throw (f : Fault) (w : World π) (test : Fault → World π → Prop) :
    Fails (throw f : Act π α) w test ↔ test f w := by
  constructor
  · intro fails
    exact fails f w rfl
  · intro passes f' w' ends
    cases ends
    exact passes

/-- A sequence fails in its first part, or in its second part after the first one came back. -/
@[simp] theorem fails_bind (m : Act π α) (f : α → Act π β) (w : World π)
    (test : Fault → World π → Prop) :
    Fails (m >>= f) w test ↔ m.Fails w test ∧ m.Yields w fun a w' => (f a).Fails w' test := by
  have run : (m >>= f) w = match m w with
      | .ok a w' => f a w'
      | .error fault w' => .error fault w' := by
    change EStateM.bind m f w = _
    unfold EStateM.bind
    cases m w <;> rfl
  unfold Fails Yields
  rw [run]
  cases m w with
  | ok a w₁ => simp
  | error fault w₁ => simp

@[simp] theorem yields_true (m : Act π α) (w : World π) : (m.Yields w fun _ _ => True) ↔ True :=
  iff_true_intro fun _ _ _ => trivial

@[simp] theorem fails_map (f : α → β) (m : Act π α) (w : World π) (test : Fault → World π → Prop) :
    Fails (f <$> m) w test ↔ m.Fails w test := by
  change Fails (m >>= fun a => pure (f a)) w test ↔ _
  simp only [fails_bind, fails_pure, yields_true, and_true]

@[simp] theorem fails_entity (w : World π) (test : Fault → World π → Prop) :
    (entity : Act π (Entity π)).Fails w test ↔ True :=
  iff_true_intro fun _ _ ends => nomatch ends

@[simp] theorem fails_get (w : World π) (test : Fault → World π → Prop) :
    (get : Act π (World π)).Fails w test ↔ True :=
  iff_true_intro fun _ _ ends => nomatch ends

@[simp] theorem fails_modify (change : World π → World π) (w : World π)
    (test : Fault → World π → Prop) : (modify change : Act π Unit).Fails w test ↔ True :=
  iff_true_intro fun _ _ ends => nomatch ends

@[simp] theorem fails_setEntity (e : Entity π) (w : World π) (test : Fault → World π → Prop) :
    (setEntity e).Fails w test ↔ True :=
  fails_modify _ w test

@[simp] theorem fails_modifyEntity (change : Entity π → Entity π) (w : World π)
    (test : Fault → World π → Prop) : (modifyEntity change).Fails w test ↔ True :=
  fails_modify _ w test

@[simp] theorem fails_updateEntity (change : Entity π → α × Entity π) (w : World π)
    (test : Fault → World π → Prop) : (updateEntity change).Fails w test ↔ True :=
  iff_true_intro fun _ _ ends => nomatch ends

@[simp] theorem fails_record (occurrence : Entity π → Occurrence π) (w : World π)
    (test : Fault → World π → Prop) : (record occurrence).Fails w test ↔ True :=
  fails_modify _ w test

@[simp] theorem fails_consulted (w : World π) (test : Fault → World π → Prop) :
    (consulted : Act π (Entity π)).Fails w test ↔ True := by
  unfold consulted
  simp

theorem fails_ite {c : Prop} [Decidable c] {m n : Act π α} {w : World π}
    {test : Fault → World π → Prop} (yes : c → m.Fails w test) (no : ¬c → n.Fails w test) :
    (if c then m else n).Fails w test := by
  split
  · exact yes ‹_›
  · exact no ‹_›

def left : EStateM.Result Fault (World π) α → World π
  | .ok _ w | .error _ w => w

end Act

/-! ### Careful steps -/

/-- The count of an effect overflows only if a stack with a source has joined the effect. -/
def Fault.Sourced (f : Fault) (w : World π) : Prop :=
  ∀ effect, f = .countOverflow effect → w.Sourced effect

/-- Where a step fails, no count overflows without a stack that has a source, and whoever saw the
entity until then saw it in order. -/
structure Fault.Excused (rules : Rulebook π) (f : Fault) (w : World π) : Prop where
  sourced : f.Sourced w
  trace : ∀ o ∈ w.trace, o.Capped rules

/-- A step keeps the bookkeeping in order, and where it fails although it began in order, the failure
is excused. -/
structure Careful (rules : Rulebook π) {α : Type} (m : Act π α) : Prop where
  keeps : m.Keeps (Orderly rules)
  faults : ∀ w, Sound rules w → m.Fails w (Fault.Excused rules)

/-- From a world in order a step only fails for the count if a stack with a source has joined. -/
theorem Careful.fails {rules : Rulebook π} {α : Type} {m : Act π α} (careful : Careful rules m)
    (w : World π) (sound : Sound rules w) : m.Fails w Fault.Sourced :=
  fun f w' ends => (careful.faults w sound f w' ends).sourced

namespace Careful

variable {rules : Rulebook π} {α β : Type}

/-- Whether or not a step comes back, whoever saw the entity until then saw it in order. -/
theorem trace_left {m : Act π α} (careful : Careful rules m) {w : World π} (sound : Sound rules w) :
    ∀ o ∈ (Act.left (m w)).trace, o.Capped rules := by
  cases ends : m w with
  | ok a w' => exact (careful.keeps w a w' ends sound).1.trace
  | error f w' => exact (careful.faults w sound f w' ends).trace

theorem pure (a : α) : Careful rules (Pure.pure a : Act π α) :=
  ⟨(Orderly.steady rules).pure a, by simp⟩

theorem entity : Careful rules (Act.entity : Act π (Entity π)) :=
  ⟨.entity (Orderly.steady rules), by simp⟩

theorem bind {m : Act π α} {f : α → Act π β} (first : Careful rules m)
    (second : ∀ a, Careful rules (f a)) : Careful rules (m >>= f) where
  keeps := (Orderly.steady rules).bind first.keeps fun a => (second a).keeps
  faults w sound := by
    rw [Act.fails_bind]
    refine ⟨first.faults w sound, fun a w₁ ends => (second a).faults w₁ ?_⟩
    exact (first.keeps w a w₁ ends sound).1

theorem of_still {m : Act π α} (still : m.Keeps (Still rules))
    (fails : ∀ w, m.Fails w (Fault.Excused rules)) : Careful rules m :=
  ⟨.of_still still, fun w _ => fails w⟩

theorem modifyEntity {change : Entity π → Entity π}
    (still : (Act.modifyEntity change).Keeps (Still rules)) :
    Careful rules (Act.modifyEntity change) :=
  .of_still still (by simp)

theorem updateEntity {change : Entity π → α × Entity π}
    (still : (Act.updateEntity change).Keeps (Still rules)) :
    Careful rules (Act.updateEntity change) :=
  .of_still still (by simp)

theorem record {mark : Entity π → Occurrence π} (still : (Act.record mark).Keeps (Still rules)) :
    Careful rules (Act.record mark) :=
  .of_still still (by simp)

theorem forM {f : α → Act π Unit} (list : List α) (each : ∀ a, Careful rules (f a)) :
    Careful rules (list.forM f) := by
  induction list with
  | nil => exact pure ()
  | cons a rest ih => exact (each a).bind fun _ => ih

theorem foldlM {f : β → α → Act π β} (list : List α) (each : ∀ b a, Careful rules (f b a)) (b : β) :
    Careful rules (list.foldlM f b) := by
  induction list generalizing b with
  | nil => exact pure b
  | cons a rest ih =>
      rw [List.foldlM_cons]
      exact (each b a).bind ih

theorem bindE {ε : Type} {m : ExceptT ε (Act π) α} {f : α → ExceptT ε (Act π) β}
    (first : Careful rules m.run) (second : ∀ a, Careful rules (f a).run) :
    Careful rules (m >>= f).run := by
  rw [ExceptT.run_bind]
  refine first.bind fun result => ?_
  cases result with
  | ok a => exact second a
  | error e => exact pure _

theorem forME {ε : Type} {f : α → ExceptT ε (Act π) Unit} (list : List α)
    (each : ∀ a, Careful rules (f a).run) : Careful rules (list.forM f).run := by
  induction list with
  | nil => exact pure (Except.ok ())
  | cons a rest ih => exact bindE (each a) fun _ => ih

end Careful

namespace Engine

open Act

variable [CustomTrigger π] {rules : Rulebook π} {w : World π}

/-! ### Steps that never fail -/

omit [CustomTrigger π] in
theorem updateCondition_fails {α : Type} (owner : Owner)
    (change : Readings → Condition π → Condition π × α) (w : World π)
    (test : Fault → World π → Prop) : (updateCondition rules owner change).Fails w test := by
  rw [updateCondition, fails_bind, yields_entity]
  cases w.entity.condition owner <;> simp

theorem stimulate_fails (owner : Owner) (stimulus : Stimulus) (w : World π)
    (test : Fault → World π → Prop) : (stimulate rules owner stimulus).Fails w test := by
  rw [stimulate, fails_bind]
  refine ⟨updateCondition_fails owner _ w test, fun result w₁ _ => ?_⟩
  cases result <;> simp

theorem mergeDuration_fails (definition : EffectDefinition π) (target : Handle)
    (incoming : Stack π) (w : World π) (test : Fault → World π → Prop) :
    (mergeDuration rules definition target incoming).Fails w test := by
  rw [mergeDuration, fails_bind]
  refine ⟨updateCondition_fails _ _ w test, fun result w₁ _ => ?_⟩
  cases result <;> simp

omit [CustomTrigger π] in
theorem drain_fails (effect : EffectName) (w : World π) (test : Fault → World π → Prop) :
    (drain effect).Fails w test := by
  rw [drain, fails_bind, yields_entity]
  cases w.entity.effects.get? effect with
  | none => simp
  | some live => exact ⟨by simp, fails_ite (fun _ => by simp [announceStacks]) fun _ => by simp⟩

theorem ensureLive_fails (definition : EffectDefinition π) (w : World π)
    (test : Fault → World π → Prop) : (ensureLive rules definition).Fails w test := by
  rw [ensureLive, fails_bind, yields_entity]
  exact ⟨by simp, fails_ite (fun _ => by simp) fun _ => by simp⟩

theorem pushStack_fails (effect : EffectName) (s : Stack π) (w : World π)
    (test : Fault → World π → Prop) : (pushStack effect s).Fails w test := by
  rw [pushStack, fails_bind, yields_entity]
  exact ⟨by simp, fails_ite (fun _ => by simp) fun _ => by simp⟩

theorem pushCapped_fails (effect : EffectName) (s : Stack π) (value : UInt32) (w : World π)
    (test : Fault → World π → Prop) : (pushCapped effect s value).Fails w test :=
  fails_ite (fun _ => by simp) fun _ => pushStack_fails effect _ w test

variable {nested : Nested π} (careful : ∀ r, Careful rules (nested r))

include careful

/-! ### Modifiers -/

omit [CustomTrigger π] in
theorem removeModifierAt_careful (stat : StatName) (id : Handle) :
    Careful rules (removeModifierAt nested stat id) where
  keeps := removeModifierAt_orderly (fun r => (careful r).keeps) stat id
  faults w sound := by
    rw [removeModifierAt, fails_bind, yields_entity]
    refine ⟨by simp, ?_⟩
    cases dropped : w.entity.dropModifier? stat id with
    | none => simp
    | some e =>
        have sound₁ := (dropModifier?_still dropped sound).1
        simpa using (careful _).faults _ sound₁

omit [CustomTrigger π] in
theorem removeModifiersOf_careful (source : SourceTag) :
    Careful rules (removeModifiersOf nested source) := by
  refine .bind .entity fun e => ?_
  dsimp only
  split
  · exact .pure 0
  · refine .bind (.modifyEntity (dropModifiersOf_still source)) fun _ => ?_
    exact .bind (.forM _ fun stat => careful _) fun _ => .pure _

omit [CustomTrigger π] in
theorem removeModifier_careful (id : Handle) : Careful rules (removeModifier nested id) := by
  refine .bind .entity fun e => ?_
  cases e.modifiers.statOf? id with
  | none => exact .pure false
  | some stat =>
      refine .bind (.record (.record (fun _ _ same => (Option.some.inj same).symm) fun _ => trivial))
        fun _ => removeModifierAt_careful careful stat id

omit [CustomTrigger π] in
theorem modifierStimulated_careful (stat : StatName) (id : Handle) :
    Careful rules (modifierStimulated nested stat id) where
  keeps := modifierStimulated_orderly (fun r => (careful r).keeps) stat id
  faults w sound := by
    rw [modifierStimulated, fails_bind, yields_entity]
    refine ⟨by simp, ?_⟩
    cases found : w.entity.modifiers.find? stat id with
    | none => simp
    | some m =>
        have sound₁ := (refreshModifier_still found sound).1
        simp only [fails_bind, fails_modifyEntity, yields_modifyEntity, true_and]
        refine fails_ite (fun _ => fails_ite (fun _ => ?_) fun _ => ?_) fun _ => by simp
        · have removes := (removeModifierAt_careful careful stat id).faults _ sound₁
          simpa using removes
        · exact (careful _).faults _ sound₁

theorem insertModifier_careful (m : Modifier π) (source : Option SourceTag) :
    Careful rules (insertModifier nested rules m source) where
  keeps := insertModifier_orderly (fun r => (careful r).keeps) m source
  faults w sound := by
    unfold insertModifier
    simp only [fails_bind, fails_updateEntity, yields_updateEntity, fails_consulted,
      yields_consulted, true_and]
    refine fails_ite (fun _ => by simp) fun _ => ?_
    have new := Modifier.attach_id ({ m with id := w.entity.takeHandle.1 } : Modifier π)
      (rules.readings w.entity.takeHandle.2) source
    simpa using (careful _).faults _ (addModifier_still new sound).1

omit careful [CustomTrigger π] in
theorem acquireModifier_careful : Careful rules (updateEntity (Entity.acquireModifier (π := π))) :=
  .updateEntity (.updateEntity (fun _ tidy => tidy.acquireModifier) fun _ => .of_effects rfl)

theorem copyModifiers_careful (modifiers : List (Modifier π)) :
    Careful rules (copyModifiers nested rules modifiers) :=
  .foldlM _ (fun _ _ => acquireModifier_careful.bind fun _ =>
    (insertModifier_careful careful _ _).bind fun _ => .pure _) 0

/-! ### Effects that flip and go -/

omit [CustomTrigger π] in
theorem runHook_careful (hook : Hook) (effect : EffectName) (script : Option (EffectHook π)) :
    Careful rules (runHook nested hook effect script) := by
  cases script with
  | none => exact .pure ()
  | some script => exact careful _

omit [CustomTrigger π] in
theorem announceFlip_careful (effect : EffectName) (active : Bool) :
    Careful rules (announceFlip nested rules effect active) := by
  rw [announceFlip_eq]
  exact (runHook_careful careful _ effect _).bind fun _ =>
    .record (Still.ignored rules _ (.effectChanged effect))

omit [CustomTrigger π] in
theorem removeLive_careful (effect : EffectName) :
    Careful rules (removeLive nested rules effect) where
  keeps := removeLive_orderly (fun r => (careful r).keeps) effect
  faults w sound := by
    rw [removeLive, fails_bind, yields_entity]
    refine ⟨by simp, ?_⟩
    cases w.entity.effects.get? effect with
    | none => simp
    | some live =>
        have rest : Careful rules (do
            let _ ← removeModifiersOf nested (SourceTag.ofEffect effect)
            if live.active then announceFlip nested rules effect false) := by
          refine (removeModifiersOf_careful careful _).bind fun _ => ?_
          split
          · exact announceFlip_careful careful effect false
          · exact .pure ()
        have dropped := closes_dropEffect effect live (sound.mono fun _ never => never.elim)
        rw [fails_bind, yields_modifyEntity, fails_bind, yields_record]
        exact ⟨by simp, by simp, rest.faults _ dropped.1⟩

omit [CustomTrigger π] in
theorem removeIfEmpty_careful (effect : EffectName) :
    Careful rules (removeIfEmpty nested rules effect) := by
  refine .bind .entity fun e => ?_
  split
  · exact removeLive_careful careful effect
  · exact .pure ()

/-! ### Settling -/

omit [CustomTrigger π] careful in
/-- What overflows the count has a stack with a source, since the other ones are within the limit. -/
theorem recount_fails {effect : EffectName} (sound : SoundBut rules (· = effect) w) :
    (recount rules effect).Fails w (Fault.Excused rules) := by
  rw [recount, fails_bind, yields_entity]
  refine ⟨by simp, ?_⟩
  cases found : w.entity.effects.get? effect with
  | none => simp
  | some live =>
      refine fails_ite (fun overflows => ?_) fun _ => by simp
      rw [fails_throw, (sound.tidy.effects effect live found).filed]
      refine ⟨?_, sound.trace⟩
      rintro _ ⟨⟩
      obtain ⟨d, -, stocked⟩ := sound.stocked effect live found
      by_contra unsourced
      have within := stocked.activeSum_le fun source =>
        unsourced (sound.sourced effect live found source)
      exact absurd overflows (Nat.not_le.2 (Nat.lt_of_le_of_lt within d.limit_lt))

theorem renewModifiers_careful (definition : EffectDefinition π) (active : Bool) (count : UInt32) :
    Careful rules (renewModifiers nested rules definition active count) := by
  have records {mark : Entity π → Occurrence π} (sees : ∀ e, (mark e).seen? = some e)
      (room : ∀ e, (mark e).WithinRoom rules) : Careful rules (record mark) :=
    .record (.record (fun e seen same => (Option.some.inj ((sees e).symm.trans same)).symm) room)
  have starts : Careful rules (record (.renewalStarted definition.effect)) :=
    records (fun _ => rfl) fun _ => trivial
  have renews (m : Modifier π) : Careful rules (record (.renewed definition.effect m)) :=
    records (fun _ => rfl) fun _ => trivial
  have ends : Careful rules (record (.renewalEnded definition.effect)) :=
    records (fun _ => rfl) fun _ => trivial
  refine starts.bind fun _ => ?_
  refine (removeModifiersOf_careful careful _).bind fun _ => ?_
  split
  · refine .bind (.forM _ fun template => ?_) fun _ => ends
    refine acquireModifier_careful.bind fun blank => ?_
    refine (renews _).bind fun _ => ?_
    exact (insertModifier_careful careful _ _).bind fun _ => .pure ()
  · exact ends

omit [CustomTrigger π] in
theorem settleFlip_careful (effect : EffectName) (v : Verdict) :
    Careful rules (settleFlip nested rules effect v) := by
  unfold settleFlip
  split
  · exact (announceFlip_careful careful effect v.active).bind fun _ => .bind .entity fun _ => .pure _
  · exact .pure true

theorem settleModifiers_careful (effect : EffectName) (v : Verdict) :
    Careful rules (settleModifiers nested rules effect v) := by
  unfold settleModifiers
  cases rules.effects.get? effect with
  | none => exact .pure true
  | some definition =>
      dsimp only
      split
      · exact (renewModifiers_careful careful definition v.active v.count).bind fun _ =>
          .bind .entity fun _ => .pure _
      · exact .pure true

omit [CustomTrigger π] in
theorem settleEnd_fails {effect : EffectName} {v : Verdict} (sound : Sound rules w)
    (holds : v.holds w.entity effect = true) :
    (settleEnd nested rules effect v).Fails w (Fault.Excused rules) := by
  obtain ⟨live, found, -, count, -⟩ := live_of_holds holds
  refine fails_ite (fun zero => ?_) fun _ => by simp
  rw [fails_bind]
  refine ⟨drain_fails effect w _, fun _ w₁ ends => ?_⟩
  have drained := drain_yields sound found (count.trans zero) _ w₁ ends
  exact (removeIfEmpty_careful careful effect).faults w₁ drained.1

theorem settle_fails {effect : EffectName} (sound : SoundBut rules (· = effect) w) :
    (settle nested rules effect).Fails w (Fault.Excused rules) := by
  have orderly (r : Request π) := (careful r).keeps
  rw [settle, fails_bind]
  refine ⟨recount_fails sound, fun found w₁ counts => ?_⟩
  cases found with
  | none => simp
  | some v =>
      obtain ⟨sound₁, holds₁, -⟩ := recount_yields sound _ w₁ counts
      rw [fails_bind]
      refine ⟨(settleFlip_careful careful effect v).faults w₁ sound₁, fun still w₂ flips => ?_⟩
      obtain ⟨after₂, holds₂⟩ := settleFlip_stage orderly effect v w₁ holds₁ still w₂ flips
      obtain ⟨sound₂, -⟩ := after₂ sound₁
      refine fails_ite (fun yes => ?_) fun _ => by simp
      rw [yes] at holds₂
      rw [fails_bind]
      refine ⟨(settleModifiers_careful careful effect v).faults w₂ sound₂, fun still w₃ renews => ?_⟩
      obtain ⟨after₃, holds₃⟩ := settleModifiers_stage orderly effect v w₂ holds₂ still w₃ renews
      refine fails_ite (fun yes => ?_) fun _ => by simp
      exact settleEnd_fails careful (after₃ sound₂).1 (holds₃.trans yes)

theorem settle_careful (effect : EffectName) : Careful rules (settle nested rules effect) where
  keeps := settle_orderly (fun r => (careful r).keeps) effect
  faults _ sound := settle_fails careful (sound.mono fun _ never => never.elim)

/-- A change of stacks that leaves an effect to be counted is announced and settled. -/
theorem settleStacks_fails {effect : EffectName} {w₁ : World π} (sound : Sound rules w)
    (loosens : Loosens rules effect w w₁) :
    (settleStacks nested rules effect).Fails w₁ (Fault.Excused rules) := by
  rw [settleStacks, announceStacks, fails_bind, yields_record]
  exact ⟨by simp, settle_fails careful ((loosens sound).1.mark (.stacksChanged effect) fun _ => id)⟩

/-! ### Stacks that go or change -/

theorem removeStack_careful (effect : EffectName) (id : Handle) :
    Careful rules (removeStack nested rules effect id) where
  keeps := removeStack_orderly (fun r => (careful r).keeps) effect id
  faults w sound := by
    rw [removeStack, fails_bind, yields_entity]
    refine ⟨by simp, ?_⟩
    cases detached : w.entity.detachStack? effect id with
    | none => simp
    | some e => simpa using settleStacks_fails careful sound (detachStack?_loosens detached)

theorem removeStacksOf_careful (effect : EffectName) (source : SourceTag) :
    Careful rules (removeStacksOf nested rules effect source) where
  keeps := removeStacksOf_orderly (fun r => (careful r).keeps) effect source
  faults w sound := by
    rw [removeStacksOf, fails_bind, yields_entity]
    refine ⟨by simp, ?_⟩
    cases found : w.entity.effects.get? effect with
    | none => simp
    | some live =>
        have settles := settleStacks_fails careful sound
          (detachStacks_loosens found (live.stacksOf source))
        rw [fails_bind, yields_updateEntity]
        exact ⟨by simp, fails_ite (fun _ => by simpa using settles) fun _ => by simp⟩

theorem reduceStacks_careful (effect : EffectName) (amount : UInt32) :
    Careful rules (reduceStacks nested rules effect amount) where
  keeps := reduceStacks_orderly (fun r => (careful r).keeps) effect amount
  faults w sound := by
    rw [reduceStacks, fails_bind, yields_entity]
    refine ⟨by simp, ?_⟩
    cases found : w.entity.effects.get? effect with
    | none => simp
    | some live =>
        have settles := settleStacks_fails careful sound
          (drawStacks_loosens found (rfl : drawDown amount live.held.reverse = _))
        exact fails_ite (fun _ => by simp) fun _ => by simpa using settles

omit [CustomTrigger π] in
theorem removeEffect_careful (effect : EffectName) :
    Careful rules (removeEffect nested rules effect) := by
  refine .bind .entity fun e => ?_
  split
  · exact (removeLive_careful careful effect).bind fun _ => .pure true
  · exact .pure false

theorem refreshImmunity_careful : Careful rules (refreshImmunity nested rules) :=
  .bind .entity fun _ => .forM _ fun effect => settle_careful careful effect

theorem stackFlipped_fails {effect : EffectName} {id : Handle} {live : LiveEffect π}
    {s s' : Stack π} (sound : Sound rules w) (found : w.entity.effects.get? effect = some live)
    (stack : live.stack? id = some s) (same : s'.id = id) (sourced : s'.isSourced = s.isSourced)
    (stays : (s'.active = false → s'.isSourced = true) → Sound rules w →
      ∀ d, rules.effects.get? effect = some d → live.Stocked d →
        (live.modifyStack id fun _ => s').Stocked d) :
    (stackFlipped nested rules effect id).Fails
      { w with entity := w.entity.updateStack effect id s' } (Fault.Excused rules) := by
  have present : (w.entity.updateStack effect id s').stack? effect id = some s' := by
    apply Entity.stack?_updateStack (s := s) _ same
    rw [Entity.stack?, found, Option.bind_some, stack]
  rw [stackFlipped, fails_bind, yields_entity, present]
  refine ⟨by simp, fails_ite (fun gone => ?_) fun kept => ?_⟩
  · rw [fails_bind, removeStack, fails_bind, yields_entity]
    refine ⟨⟨by simp, ?_⟩, by simp⟩
    cases detached : (w.entity.updateStack effect id s').detachStack? effect id with
    | none => simp
    | some e =>
        have settles := settleStacks_fails careful sound
          (updateStack_detach_loosens found stack same sourced detached)
        simpa using settles
  · have owned (idle : s'.active = false) : s'.isSourced = true := by
      rw [idle] at kept
      simpa using kept
    exact settleStacks_fails careful sound (updateStack_loosens found stack same sourced (stays owned))

theorem stackStimulated_careful (effect : EffectName) (id : Handle) :
    Careful rules (stackStimulated nested rules effect id) where
  keeps := stackStimulated_orderly (fun r => (careful r).keeps) effect id
  faults w sound := by
    rw [stackStimulated, fails_bind, yields_entity]
    refine ⟨by simp, ?_⟩
    cases stack : w.entity.stack? effect id with
    | none => simp
    | some s =>
        obtain ⟨live, found, there⟩ := Option.bind_eq_some_iff.1 stack
        rw [fails_bind, yields_modifyEntity]
        refine ⟨by simp, fails_ite (fun _ => ?_) fun _ => by simp⟩
        have same : s.id = id := LiveEffect.id_of_stack? there
        refine stackFlipped_fails careful sound found there same rfl ?_
        exact fun owned sound _ _ stocked =>
          stocked.refresh (sound.tidy.effects effect live found).distinct there owned

/-! ### Stacks that come -/

theorem mergeStack_fails {definition : EffectDefinition π}
    (registered : rules.effects.get? definition.effect = some definition)
    (joins : definition.stacking ≠ .separate) (sound : Sound rules w) {target : Handle}
    (first : ∃ s, w.entity.stack? definition.effect target = some s ∧ s.isSourced = false)
    (incoming : Stack π) :
    (mergeStack nested rules definition target incoming).Fails w (Fault.Excused rules) := by
  rw [mergeStack, fails_bind]
  refine ⟨mergeDuration_fails definition target incoming w _, fun _ w₁ merges => ?_⟩
  obtain ⟨sound₁, alike₁⟩ := mergeDuration_still definition target incoming w _ w₁ merges sound
  rw [fails_bind]
  refine ⟨by simp, fun _ w₂ releases => ?_⟩
  obtain ⟨sound₂, alike₂⟩ := releaseStack_still incoming.detach w₁ _ w₂ releases sound₁
  rw [fails_bind, yields_entity]
  refine ⟨by simp, ?_⟩
  cases stack : w₂.entity.stack? definition.effect target with
  | none => simp
  | some s =>
      obtain ⟨live, found, there⟩ := Option.bind_eq_some_iff.1 stack
      have sourceless : s.isSourced = false := (alike₁.trans alike₂).sourceless first stack
      generalize joined : { s with value := mergedValue definition s.value incoming.value } = s'
      have same : s.id = target := LiveEffect.id_of_stack? there
      have handle : s'.refresh.1.id = target := by rw [← joined]; exact same
      have source : s'.refresh.1.isSourced = s.isSourced := by rw [← joined]; rfl
      simp only [joined, fails_bind, fails_modifyEntity, yields_modifyEntity, true_and]
      refine fails_ite (fun _ => ?_) fun _ => by simp
      rw [fails_bind]
      refine ⟨stackFlipped_fails careful sound₂ found there handle source ?_, by simp⟩
      intro owned sound₂ d registered' stocked
      rw [registered] at registered'
      cases registered'
      exact merged_stocked stocked (sound₂.tidy.effects _ live found).distinct joins there sourceless
        joined owned

theorem placeStack_fails {definition : EffectDefinition π}
    (registered : rules.effects.get? definition.effect = some definition) (sound : Sound rules w)
    (s : Stack π) : (placeStack nested rules definition s).Fails w (Fault.Excused rules) := by
  refine fails_ite (fun _ => by simp) fun _ => fails_ite (fun _ => pushStack_fails _ s w _) fun _ => ?_
  refine fails_ite (fun _ => ?_) fun joins => ?_
  · rw [fails_bind, yields_entity]
    exact ⟨by simp, pushCapped_fails _ s _ w _⟩
  · rw [fails_bind, yields_entity]
    refine ⟨by simp, ?_⟩
    cases first : (w.entity.effects.get? definition.effect).bind LiveEffect.firstSourceless? with
    | some target =>
        exact mergeStack_fails careful registered joins sound (sound.tidy.oldest first) s
    | none => exact pushCapped_fails _ s _ w _

theorem addStackOf_careful {definition : EffectDefinition π}
    (registered : rules.effects.get? definition.effect = some definition) (s : Stack π)
    (source : Option SourceTag) : Careful rules (addStackOf nested rules definition s source) where
  keeps := addStackOf_orderly (fun r => (careful r).keeps) registered s source
  faults w sound := by
    have orderly (r : Request π) := (careful r).keeps
    rw [addStackOf, fails_bind]
    refine ⟨ensureLive_fails definition w _, fun created w₁ ensures => ?_⟩
    obtain ⟨sound₁, -⟩ := (ensureLive_yields registered w created w₁ ensures).1 sound
    obtain ⟨sound₂, -⟩ := takeHandle_still sound₁
    simp only [fails_bind, fails_updateEntity, yields_updateEntity, fails_consulted,
      yields_consulted, true_and]
    generalize numbered : ({ s with
      duration := stackDuration definition s.duration, id := w₁.entity.takeHandle.1 } : Stack π) = s'
    refine ⟨placeStack_fails careful registered sound₂ _, fun outcome w₃ places => ?_⟩
    have spare : w₁.entity.takeHandle.2.Spare
        (s'.attach (rules.readings w₁.entity.takeHandle.2) source).id := by
      rw [Stack.attach_id, ← numbered]
      exact sound₁.tidy.spare
    have placed : Placed rules definition.effect _ outcome w₃ :=
      placeStack_placed orderly registered spare outcome w₃ places
    refine fails_ite (fun applied => ?_) fun discarded => fails_ite (fun _ => ?_) fun _ => by simp
    · have loosens := placed.loosens applied
      rw [fails_bind]
      refine ⟨settleStacks_fails careful sound₂ loosens, fun _ w₄ settles => ?_⟩
      obtain ⟨sound₄, -⟩ := settleStacks_closes orderly _ w₃ _ w₄ settles (loosens sound₂).1
      simpa using (runHook_careful careful _ definition.effect definition.onAddStack).faults w₄ sound₄
    · obtain ⟨sound₃, -⟩ := placed.still discarded sound₂
      simpa using (removeIfEmpty_careful careful definition.effect).faults w₃ sound₃

theorem addStack_careful (effect : EffectName) (s : Stack π) (source : Option SourceTag) :
    Careful rules (addStack nested rules effect s source) where
  keeps := addStack_orderly (fun r => (careful r).keeps) effect s source
  faults w sound := by
    unfold addStack
    cases registered : rules.effects.get? effect with
    | none => simp
    | some definition =>
        have named := rules.filed effect definition registered
        subst named
        simpa using (addStackOf_careful careful registered s source).faults w sound

theorem replaceStack_careful (effect : EffectName) (s : Stack π) (source : Option SourceTag) :
    Careful rules (replaceStack nested rules effect s source) := by
  have adds := addStack_careful careful effect s source
  unfold replaceStack
  split
  · cases source with
    | none => exact adds
    | some tag => exact (removeStacksOf_careful careful effect tag).bind fun _ => adds
  · exact .bind (.modifyEntity (releaseStack_still s)) fun _ => .pure _

theorem addModifier_careful (m : Modifier π) (source : Option SourceTag) :
    Careful rules (addModifier nested rules m source) := by
  unfold addModifier
  cases registered : rules.effects.get? m.stat with
  | none => exact insertModifier_careful careful m source
  | some definition =>
      have named := rules.filed m.stat definition registered
      rw [← named] at registered
      refine .bind (.updateEntity (.updateEntity (fun _ tidy => tidy.acquireStack)
        fun _ => .of_effects rfl)) fun blank => ?_
      refine .bind (.modifyEntity (.modifyEntity (fun _ tidy => tidy.releaseModifier m)
        fun _ => .of_effects rfl)) fun _ => ?_
      exact addStackOf_careful careful registered _ source

/-! ### Events -/

omit careful in
theorem stimulate_careful (owner : Owner) (stimulus : Stimulus) :
    Careful rules (stimulate rules owner stimulus) :=
  .of_still (stimulate_still owner stimulus) fun w => stimulate_fails owner stimulus w _

theorem customStimulated_careful (effect : EffectName) (serial : Handle) (index : Nat) :
    Careful rules (customStimulated nested rules effect serial index) := by
  refine .bind .entity fun e => ?_
  cases e.condition (.custom effect serial index) with
  | absent => exact .pure ()
  | node head next alternative =>
      have restart : Careful rules (do
          if head.restartsOnMet then
            let _ ← stimulate rules (.custom effect serial index) .restart) := by
        split
        · exact (stimulate_careful _ _).bind fun _ => .pure ()
        · exact .pure ()
      dsimp only
      split
      · split
        · exact (careful _).bind fun _ => restart
        · exact restart
      · exact restart

theorem expose_careful (owner : Owner) (stimulus : Stimulus) :
    Careful rules (expose nested rules owner stimulus) := by
  refine (stimulate_careful owner stimulus).bind fun changed => ?_
  split
  · cases owner with
    | modifier stat id => exact modifierStimulated_careful careful stat id
    | stack effect id => exact stackStimulated_careful careful effect id
    | custom effect serial index => exact customStimulated_careful careful effect serial index
  · exact .pure ()

theorem announceStat_careful (stat : StatName) : Careful rules (announceStat nested rules stat) := by
  refine .bind (.record (Still.ignored rules _ (.statChanged stat))) fun _ => ?_
  refine .bind .entity fun e => .forM _ fun owner => ?_
  refine .bind .entity fun e => ?_
  split
  · exact expose_careful careful owner _
  · exact .pure ()

theorem takeTurn_careful (delta : Float32) (index : Nat) :
    Careful rules (takeTurn nested rules delta index) := by
  refine .bind .entity fun e => ?_
  dsimp only
  cases e.timers.owners[index]? with
  | none => exact .pure ()
  | some owner =>
      refine .bind (.record (Still.timeless rules _ (.turn owner))) fun _ => ?_
      split
      · exact expose_careful careful owner _
      · exact .pure ()

omit [CustomTrigger π] careful in
/-- What is no part of the bookkeeping may change. -/
theorem aside_careful {change : Entity π → Entity π} (tidy : ∀ e : Entity π, e.Tidy → (change e).Tidy)
    (same : ∀ e, (change e).effects = e.effects) : Careful rules (Act.modifyEntity change) :=
  .modifyEntity (.modifyEntity tidy fun e => .of_effects (same e))

theorem passTime_careful (delta : Float32) : Careful rules (passTime nested rules delta) := by
  refine .bind (.record (Still.timeless rules _ (.walkStarted delta))) fun _ => ?_
  refine .bind .entity fun e => ?_
  dsimp only
  refine .bind (aside_careful (fun _ tidy => { tidy with }) fun _ => rfl) fun _ => ?_
  refine .bind (.forM _ fun index => takeTurn_careful careful delta index) fun _ => ?_
  refine .bind (aside_careful (fun _ tidy => { tidy with }) fun _ => rfl) fun _ => ?_
  exact .record (Still.timeless rules _ .walkEnded)

/-! ### Calls and scripts -/

omit [CustomTrigger π] in
theorem statModified_careful (stat : StatName) : Careful rules (statModified nested rules stat) := by
  refine (careful _).bind fun _ => ?_
  cases rules.modifiedHooks.get? stat with
  | none => exact .pure ()
  | some hook =>
      refine .bind .entity fun e => ?_
      split
      · refine .bind (aside_careful (fun _ tidy => { tidy with }) fun _ => rfl) fun _ => ?_
        refine (careful _).bind fun _ => ?_
        exact aside_careful (fun _ tidy => { tidy with }) fun _ => rfl
      · exact .pure ()

omit [CustomTrigger π] in
theorem setStat_careful (stat : StatName) (change : StatValue → StatValue) :
    Careful rules (setStat nested rules stat change) := by
  unfold setStat
  refine .bind (aside_careful (fun _ tidy => { tidy with }) fun _ => rfl) fun _ => ?_
  exact statModified_careful careful stat

theorem performWith_careful (c : Call π) : Careful rules (performWith nested rules c) := by
  cases c with
  | setBase stat value => exact setStat_careful careful stat fun v => { v with base := value }
  | setCurrent stat value => exact setStat_careful careful stat fun v => { v with current := value }
  | acquireModifier => exact acquireModifier_careful
  | acquireStack =>
      exact .updateEntity (.updateEntity (fun _ tidy => tidy.acquireStack) fun _ => .of_effects rfl)
  | addModifier m source => exact addModifier_careful careful m source
  | removeModifier id => exact removeModifier_careful careful id
  | removeModifiersOf source => exact removeModifiersOf_careful careful source
  | copyModifiers other source => exact copyModifiers_careful careful _
  | addStack effect s source => exact addStack_careful careful effect s source
  | replaceStack effect s source => exact replaceStack_careful careful effect s source
  | removeStack effect id => exact removeStack_careful careful effect id
  | removeStacksOf effect source => exact removeStacksOf_careful careful effect source
  | reduceStacks effect amount => exact reduceStacks_careful careful effect amount
  | removeEffect effect => exact removeEffect_careful careful effect
  | refreshImmunity => exact refreshImmunity_careful careful
  | passTime delta => exact passTime_careful careful delta

omit careful [CustomTrigger π] in
theorem sight_careful : Careful rules (sight rules) :=
  .of_still (fun w => by simpa [sight] using (Still.steady rules).refl w) (by simp [sight])

theorem runScriptWith_careful {α : Type} (script : Script π α) :
    Careful rules (runScriptWith nested rules script) := by
  induction script with
  | done result => exact .pure result
  | call c next ih =>
      refine (performWith_careful careful c).bind fun reply => ?_
      refine .bind (.record (.record (fun _ _ same => ?_) fun _ => trivial)) fun _ => ih reply
      exact (Option.some.inj same).symm
  | look next ih => exact sight_careful.bind ih
  | note answer next ih => exact .bind (.record (Still.ignored rules _ (.noted answer))) fun _ => ih

theorem runHookScript_careful (hook : Hook) (script : Script π Unit) :
    Careful rules (runHookScript nested rules hook script) := by
  have running (change : List Hook → List Hook) : Careful (α := PUnit) rules
      (modify fun w : World π => { w with running := change w.running }) := by
    refine .of_still (fun w => ?_) (by simp)
    rw [yields_modify]
    exact fun sound => ⟨{ sound with }, fun _ => rfl⟩
  refine (running _).bind fun _ => ?_
  refine .bind (.record (Still.ignored rules _ (.hookStarted hook))) fun _ => ?_
  refine (runScriptWith_careful careful script).bind fun _ => ?_
  exact .bind (.record (Still.ignored rules _ (.hookEnded hook))) fun _ => running _

omit careful in
theorem serve_careful (levels : Nat) (r : Request π) : Careful rules (serve rules levels r) := by
  induction levels generalizing r with
  | zero =>
      refine ⟨serve_orderly 0 r, fun w sound => ?_⟩
      rw [serve, fails_throw]
      refine ⟨fun effect overflows => ?_, sound.trace⟩
      cases overflows
  | succ levels ih =>
      cases r with
      | announce stat => exact announceStat_careful ih stat
      | run hook script => exact runHookScript_careful ih hook script

omit careful in
theorem addParts_careful (snapshot : Snapshot) (levels : Nat) :
    Careful rules (snapshot.addParts rules levels).run := by
  have careful (r : Request π) : Careful rules (serve rules levels r) := serve_careful levels r
  unfold Snapshot.addParts
  refine .bindE (.forME _ fun form => ?_) fun _ => .forME _ fun live => .forME _ fun form => ?_
  · unfold Snapshot.addModifier
    cases form.build rules.conditionTypes with
    | error e => exact .pure _
    | ok m => exact .bindE ((insertModifier_careful careful m _).bind fun _ => .pure _) fun _ => .pure _
  · unfold Snapshot.addStack
    cases form.build rules.conditionTypes with
    | error e => exact .pure _
    | ok s => exact .bindE (addStack_careful careful live.effect s _) fun _ => .pure _

end Engine

/-! ### Runs -/

variable [CustomTrigger π] {rules : Rulebook π} {w : World π}

/-- An effect that no stack with a source has joined never overflows its count: neither a call nor the
loading of a snapshot fails with it. Whoever sees the effect without such a stack sees active stacks
within its limit, and what they leave of it is the room for more. When a stack joins stacks that stay
apart, the count that its room was computed from is up to date, and all of them are within the limit. -/
theorem unsourced_counts_never_overflow {snapshots : Snapshot → Prop}
    {calls : Entity π → Call π → Prop} (reached : Reached rules snapshots calls w)
    (effect : EffectName) :
    (∀ levels c f w', Engine.perform rules levels c w = .error f w' →
      (∀ s seen, .stackPushed effect s seen ∈ w'.trace → s.isSourced = false) →
        f ≠ .countOverflow effect) ∧
    (∀ snapshot levels f w', Snapshot.restore rules levels snapshot = .error f w' →
      (∀ s seen, .stackPushed effect s seen ∈ w'.trace → s.isSourced = false) →
        f ≠ .countOverflow effect) ∧
    (∀ e, (e = w.entity ∨ ∃ o ∈ w.trace, o.seen? = some e) →
      ∀ live, e.effects.get? effect = some live → (∀ s ∈ live.held, s.isSourced = false) →
        ∃ d, rules.effects.get? effect = some d ∧
          live.activeSum ≤ d.limit ∧ d.limit < UInt32.size ∧
          ∀ count, count.toNat = live.activeSum →
            (d.room count).toNat + live.activeSum = d.limit) ∧
    ∀ s seen, .stackPushed effect s seen ∈ w.trace → s.isSourced = false →
      ∀ d live, rules.effects.get? effect = some d → seen.effects.get? effect = some live →
        d.stacking = .separate → 1 ≤ s.value.toNat ∧ live.count.toNat = live.activeSum ∧
          s.value.toNat + live.activeSum ≤ d.limit := by
  obtain ⟨sound, -⟩ := reached.settled
  have never {α : Type} {m : Act π α} (careful : Careful rules m) {w w' : World π} {f : Fault}
      (sound : Sound rules w) (fails : m w = .error f w')
      (unsourced : ∀ s seen, .stackPushed effect s seen ∈ w'.trace → s.isSourced = false) :
      f ≠ .countOverflow effect := by
    intro overflows
    obtain ⟨s, seen, member, sourced⟩ := careful.fails w sound f w' fails effect overflows
    rw [unsourced s seen member] at sourced
    cases sourced
  refine ⟨fun levels c f w' => ?_, fun snapshot levels f w' => ?_, fun e sees live found none => ?_,
    fun s seen member none d live registered found separate => ?_⟩
  · exact never (Engine.performWith_careful (Engine.serve_careful levels) c) sound
  · exact never (Engine.addParts_careful snapshot levels) (.start snapshot.stats)
  · have stocked : e.Stocked rules := by
      rcases sees with rfl | ⟨o, member, seen⟩
      · exact sound.stocked
      · exact (sound.trace o member).seen e seen
    obtain ⟨d, registered, within⟩ := stocked effect live found
    have bounded : live.activeSum ≤ d.limit := by
      refine within.activeSum_le fun source => ?_
      obtain ⟨s, member, sourced⟩ := source
      rw [none s member] at sourced
      cases sourced
    refine ⟨d, registered, bounded, d.limit_lt, fun count same => ?_⟩
    rw [d.toNat_room, same]
    exact Nat.sub_add_cancel bounded
  · obtain ⟨positive, rest⟩ := (sound.trace _ member).pushed d live registered found separate none
    exact ⟨UInt32.lt_iff_toNat_lt.1 positive, rest⟩

def blaze : EffectDefinition Empty :=
  { EffectDefinition.ofName "blaze" with
    stacking := .separate
    onActivate := some fun effect => do
      let _ ← Script.request (.addStack effect (.ofValue 5) none) }

def blazeRules : Rulebook Empty :=
  ((Rulebook.builtin.registerEffect blaze).toOption).getD .builtin

def joinsSourced : Occurrence Empty → Bool
  | .stackPushed effect s _ => effect = "blaze" && s.isSourced
  | _ => false

/-- A stack that joins one near the largest count while the effect is being settled shrinks to the room.
A call that fails afterwards does not fail for the count. -/
theorem blaze_never_overflows : ∃ (w w' : World Empty) (live : LiveEffect Empty) (f : Fault),
    Reached blazeRules (fun _ => True) (fun _ _ => True) w ∧
      w.entity.effects.get? "blaze" = some live ∧ live.held.length = 2 ∧
      live.activeSum = 4294967295 ∧ live.activeSum ≤ blaze.limit ∧
      Engine.perform blazeRules 0 (.setBase "attack" 1) w = .error f w' ∧
      f ≠ .countOverflow "blaze" := by
  have made : ((Engine.performAll blazeRules 6 [.addStack "blaze" (.ofValue 4294967293) none]
      (.ofEntity .new)).any fun w =>
        ((w.entity.effects.get? "blaze").any fun live => live.held.length = 2 &&
          live.activeSum = 4294967295 && live.held.all fun s => !s.isSourced) &&
        match Engine.perform blazeRules 0 (.setBase "attack" 1) w with
        | .ok _ _ => false
        | .error _ w' => !w'.trace.any joinsSourced) = true := by
    decide +kernel
  obtain ⟨w, run, checked⟩ := (Option.any_eq_true ..).1 made
  rw [Bool.and_eq_true] at checked
  obtain ⟨lives, fails⟩ := checked
  obtain ⟨live, found, passes⟩ := (Option.any_eq_true ..).1 lives
  simp only [Bool.and_eq_true, decide_eq_true_eq, List.all_eq_true, Bool.not_eq_true'] at passes
  obtain ⟨⟨two, sum⟩, none⟩ := passes
  have reached : Reached blazeRules (fun _ => True) (fun _ _ => True) w :=
    Engine.reached_of_performAll .new (fun _ _ _ => trivial) run
  obtain ⟨never, -, bounded, -⟩ := unsourced_counts_never_overflow reached "blaze"
  obtain ⟨d, registered, within, -⟩ := bounded w.entity (.inl rfl) live found none
  cases registered
  split at fails
  · cases fails
  · rename_i f w' ends
    refine ⟨w, w', live, f, reached, found, two, sum, within, ends, never 0 _ f w' ends ?_⟩
    intro s seen member
    rw [Bool.not_eq_true', List.any_eq_false] at fails
    simpa [joinsSourced] using fails _ member

/-- With sources the count of the same effect overflows. -/
example : ((Engine.performAll blazeRules 6 [.addStack "blaze" (.ofValue 4294967293) none]
    (.ofEntity .new)).any fun w =>
      match Engine.perform blazeRules 6 (.addStack "blaze" (.ofValue 1) (some "tower")) w with
      | .ok _ _ => false
      | .error f _ => f = .countOverflow "blaze") = true := by
  decide +kernel

end StatusEffects
