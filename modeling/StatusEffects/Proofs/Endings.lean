import StatusEffects.Proofs.Step
import StatusEffects.Proofs.Tidy
import StatusEffects.Engine.Run

/-!
The ways in which each step of the engine ends.

A test of what a step comes to is put to every place where the step returns, or where it hands over to
a step that is tested in turn. What is kept by whole calls is proved from these lemmas alone, so that
a step may be written differently as long as it ends in the same ways.
-/

set_option autoImplicit false

namespace StatusEffects.Engine

open Act

variable {π : Type} {nested : Nested π} {rules : Rulebook π} {w : World π}

/-! ### What trees become -/

/-- What becomes of the tree of an owner; without one nothing happens. -/
theorem updateCondition_stores {α : Type} (owner : Owner)
    (change : Readings → Condition π → Condition π × α) (w : World π) :
    (updateCondition rules owner change).Yields w fun result w' =>
      (w.entity.condition owner = .absent ∧ result = none ∧ w' = w) ∨
        (w.entity.condition owner ≠ .absent ∧
          result = some (change (rules.readings (w.entity.setCondition owner .absent))
            (w.entity.condition owner)).2 ∧
          w' = { w with
            entity := w.entity.setCondition owner
              (change (rules.readings (w.entity.setCondition owner .absent))
                (w.entity.condition owner)).1
            trace := .consulted (w.entity.setCondition owner .absent) :: w.trace }) := by
  rw [updateCondition, yields_bind, yields_entity]
  cases there : w.entity.condition owner with
  | absent =>
      rw [yields_pure]
      exact .inl ⟨rfl, rfl, rfl⟩
  | node head next alternative =>
      simp only [yields_bind, yields_modifyEntity, yields_consulted, yields_pure]
      rw [Entity.setCondition_setCondition]
      refine .inr ⟨fun absent => ?_, trivial, rfl⟩
      cases absent

/-- What an event makes of the tree of an owner, and what is told of it. -/
theorem stimulate_stores [CustomTrigger π] (owner : Owner) (stimulus : Stimulus) (w : World π) :
    (stimulate rules owner stimulus).Yields w fun changed w' =>
      (w.entity.condition owner = .absent ∧ changed = false ∧ w' = w) ∨
        (w.entity.condition owner ≠ .absent ∧ ∃ r e, e = w.entity.setCondition owner
            (Stimulus.apply stimulus r (w.entity.condition owner)).1 ∧
          w' = { w with
            entity := e
            trace := .stimulated owner stimulus (e.condition owner) e ::
              .consulted (w.entity.setCondition owner .absent) :: w.trace }) := by
  rw [stimulate, yields_bind]
  refine (updateCondition_stores owner _ w).mono fun result w₁ stored => ?_
  rcases stored with ⟨absent, rfl, rfl⟩ | ⟨there, rfl, rfl⟩
  · rw [yields_pure]
    exact .inl ⟨absent, rfl, rfl⟩
  · simp only [yields_bind, yields_record, yields_pure]
    exact .inr ⟨there, _, _, rfl, rfl⟩

/-! ### Modifiers that go -/

theorem removeModifierAt_cases {stat : StatName} {id : Handle} {test : Bool → World π → Prop}
    (absent : w.entity.modifiers.find? stat id = none → test false w)
    (drops : ∀ m e, w.entity.modifiers.find? stat id = some m →
      w.entity.dropModifier? stat id = some e →
      (nested (.announce stat)).Yields { w with entity := e } fun _ w' => test true w') :
    (removeModifierAt nested stat id).Yields w test := by
  rw [removeModifierAt, yields_bind, yields_entity]
  cases dropped : w.entity.dropModifier? stat id with
  | none =>
      rw [yields_pure]
      exact absent (Entity.dropModifier?_eq_none.1 dropped)
  | some e =>
      simp only [yields_bind, yields_setEntity, yields_pure]
      have present : w.entity.modifiers.find? stat id ≠ none := by
        rw [Ne, ← Entity.dropModifier?_eq_none, dropped]
        exact Option.some_ne_none e
      obtain ⟨m, found⟩ := Option.ne_none_iff_exists'.1 present
      exact drops m e found dropped

theorem mem_keys_foldl_insert {stat : StatName} (modifiers : List (Modifier π)) (stats : Table Unit) :
    stat ∈ (modifiers.foldl (fun stats m => stats.insert m.stat ()) stats).keys ↔
      stat ∈ stats.keys ∨ ∃ m ∈ modifiers, m.stat = stat := by
  induction modifiers generalizing stats with
  | nil => simp
  | cons m rest ih =>
      have inserted : stat ∈ (stats.insert m.stat ()).keys ↔ m.stat = stat ∨ stat ∈ stats.keys := by
        rw [Table.mem_keys, Table.mem_keys, Table.contains, Table.contains, Table.get?_insert]
        by_cases same : stat = m.stat
        · simp [same]
        · simp [same, Ne.symm same]
      rw [List.foldl_cons, ih, inserted]
      simp only [List.mem_cons, or_and_right, exists_or, exists_eq_left, or_assoc, or_left_comm]

/-- The stats of the modifiers that go are announced, each of them once. -/
theorem removeModifiersOf_cases {source : SourceTag} {test : Nat → World π → Prop}
    (absent : w.entity.modifiers.ofSource (some source) = [] → test 0 w)
    (drops : ∀ stats : List StatName,
      (∀ stat, stat ∈ stats ↔ ∃ m ∈ w.entity.modifiers.ofSource (some source), m.stat = stat) →
      (stats.forM fun stat => nested (.announce stat)).Yields
        { w with entity := w.entity.dropModifiersOf source }
        fun _ w' => test (w.entity.modifiers.ofSource (some source)).length w') :
    (removeModifiersOf nested source).Yields w test := by
  rw [removeModifiersOf, yields_bind, yields_entity]
  apply yields_ite
  · intro empty
    rw [yields_pure]
    exact absent (List.isEmpty_iff.1 empty)
  · intro _
    simp only [yields_bind, yields_modifyEntity, yields_pure]
    refine drops _ fun stat => ?_
    rw [mem_keys_foldl_insert]
    exact or_iff_right List.not_mem_nil

theorem modifierStimulated_cases {stat : StatName} {id : Handle} {test : Unit → World π → Prop}
    (absent : w.entity.modifiers.find? stat id = none → test () w)
    (same : ∀ m, w.entity.modifiers.find? stat id = some m → m.refresh.2 = false → test () w)
    (goes : ∀ m e, w.entity.modifiers.find? stat id = some m →
      m.refresh.1.active = false → m.refresh.1.isSourced = false →
      (w.entity.updateModifier stat id m.refresh.1).modifiers.find? stat id = some m.refresh.1 →
      (w.entity.updateModifier stat id m.refresh.1).dropModifier? stat id = some e →
      (nested (.announce stat)).Yields { w with entity := e } test)
    (flips : ∀ m, w.entity.modifiers.find? stat id = some m →
      (m.refresh.1.isSourced = false → m.refresh.1.active = true) →
      (nested (.announce stat)).Yields
        { w with entity := w.entity.updateModifier stat id m.refresh.1 } test) :
    (modifierStimulated nested stat id).Yields w test := by
  rw [modifierStimulated, yields_bind, yields_entity]
  cases found : w.entity.modifiers.find? stat id with
  | none =>
      rw [yields_pure]
      exact absent found
  | some m =>
      simp only [yields_bind, yields_modifyEntity]
      have handle : m.refresh.1.id = id := of_decide_eq_true (List.find?_some found :)
      have there := Entity.find?_updateModifier found handle
      refine yields_ite (fun _ => yields_ite (fun gone => ?_) fun kept => ?_) fun unchanged => ?_
      · rw [Bool.and_eq_true, Bool.not_eq_true', Bool.not_eq_true'] at gone
        rw [yields_bind]
        refine removeModifierAt_cases (fun lost => ?_) fun _ e _ dropped => ?_
        · rw [there] at lost
          cases lost
        · simp only [yields_pure]
          exact goes m e found gone.1 gone.2 there dropped
      · refine flips m found fun sourceless => ?_
        rw [sourceless] at kept
        simpa using kept
      · have unchanged : m.refresh.2 = false := Bool.eq_false_iff.2 unchanged
        rw [yields_pure, Modifier.refresh_eq_self unchanged, Entity.updateModifier_self found]
        exact same m found unchanged

/-! ### Modifiers that come -/

section

variable [CustomTrigger π]

/-- A modifier takes the next handle and is attached to the entity. It is put away again if it is
expired and nobody owns it; else it joins the list of its stat, which is announced. -/
theorem insertModifier_run {m m' : Modifier π} {source : Option SourceTag}
    (attached : ({ m with id := w.entity.nextHandle } : Modifier π).attach
      (rules.readings w.entity.takeHandle.2) source = m') :
    insertModifier nested rules m source w =
      (if !m'.active && !m'.isSourced then do
        modifyEntity fun e => e.releaseModifier m'.detach
        pure .discarded
      else do
        modifyEntity fun e => e.addModifier rules.operators m'
        nested (.announce m'.stat)
        pure (.modifier w.entity.nextHandle) : Act π Outcome) { w with
          entity := w.entity.takeHandle.2
          trace := .consulted w.entity.takeHandle.2 :: w.trace } := by
  rw [← attached]
  rfl

theorem insertModifier_cases {m : Modifier π} {source : Option SourceTag}
    {test : Outcome → World π → Prop}
    (discards : ∀ m', ({ m with id := w.entity.nextHandle } : Modifier π).attach
        (rules.readings w.entity.takeHandle.2) source = m' →
      m'.active = false → m'.isSourced = false → test .discarded { w with
        entity := w.entity.takeHandle.2.releaseModifier m'.detach
        trace := .consulted w.entity.takeHandle.2 :: w.trace })
    (joins : ∀ m', ({ m with id := w.entity.nextHandle } : Modifier π).attach
        (rules.readings w.entity.takeHandle.2) source = m' → m'.id = w.entity.nextHandle →
      (m'.isSourced = false → m'.active = true) → (nested (.announce m'.stat)).Yields { w with
        entity := w.entity.takeHandle.2.addModifier rules.operators m'
        trace := .consulted w.entity.takeHandle.2 :: w.trace }
        fun _ w' => test (.modifier w.entity.nextHandle) w') :
    (insertModifier nested rules m source).Yields w test := by
  intro outcome w' ends
  rw [insertModifier_run rfl] at ends
  refine yields_ite (fun gone => ?_) (fun kept => ?_) outcome w' ends
  · rw [Bool.and_eq_true, Bool.not_eq_true', Bool.not_eq_true'] at gone
    simp only [yields_bind, yields_modifyEntity, yields_pure]
    exact discards _ rfl gone.1 gone.2
  · simp only [yields_bind, yields_modifyEntity, yields_pure]
    refine joins _ rfl (Modifier.attach_id ..) fun sourceless => ?_
    rw [sourceless] at kept
    simpa using kept

end

/-! ### Effects that go -/

theorem removeLive_cases {effect : EffectName} {test : Unit → World π → Prop}
    (absent : w.entity.effects.get? effect = none → test () w)
    (drops : ∀ live, w.entity.effects.get? effect = some live →
      (removeModifiersOf nested (SourceTag.ofEffect effect)).Yields { w with
        entity := w.entity.dropEffect effect live
        trace := .effectRemoved effect (w.entity.dropEffect effect live) :: w.trace }
        fun _ w₁ => (live.active = false → test () w₁) ∧
          (live.active = true → (announceFlip nested rules effect false).Yields w₁ test)) :
    (removeLive nested rules effect).Yields w test := by
  rw [removeLive, yields_bind, yields_entity]
  cases found : w.entity.effects.get? effect with
  | none =>
      rw [yields_pure]
      exact absent found
  | some live =>
      simp only [yields_bind, yields_modifyEntity, yields_record]
      refine (drops live found).mono fun _ w₁ rest => yields_ite rest.2 fun idle => ?_
      rw [yields_pure]
      exact rest.1 (Bool.eq_false_iff.2 idle)

theorem removeIfEmpty_cases {effect : EffectName} {test : Unit → World π → Prop}
    (stays : (∀ live, w.entity.effects.get? effect = some live → live.held ≠ []) → test () w)
    (goes : ∀ live, w.entity.effects.get? effect = some live → live.held = [] →
      (removeLive nested rules effect).Yields w test) :
    (removeIfEmpty nested rules effect).Yields w test := by
  rw [removeIfEmpty, yields_bind, yields_entity]
  refine yields_ite (fun empty => ?_) fun filled => ?_
  · obtain ⟨live, found, none⟩ := (Option.any_eq_true ..).1 empty
    exact goes live found (List.isEmpty_iff.1 none)
  · rw [yields_pure]
    refine stays fun live found none => filled ?_
    rw [found, Option.any_some, none, List.isEmpty_nil]

theorem drain_cases {effect : EffectName} {test : Unit → World π → Prop}
    (stays : (∀ live, w.entity.effects.get? effect = some live → live.sourcelessStacks = []) →
      test () w)
    (drains : ∀ live, w.entity.effects.get? effect = some live → test () { w with
      entity := (w.entity.detachStacks effect live.sourcelessStacks).2
      trace := .stacksChanged effect (w.entity.detachStacks effect live.sourcelessStacks).2 ::
        w.trace }) :
    (drain effect).Yields w test := by
  rw [drain, yields_bind, yields_entity]
  cases found : w.entity.effects.get? effect with
  | none =>
      rw [yields_pure]
      refine stays fun live there => ?_
      rw [found] at there
      cases there
  | some live =>
      refine yields_ite (fun _ => ?_) fun none => ?_
      · simp only [announceStacks, yields_bind, yields_modifyEntity, yields_record]
        exact drains live found
      · rw [yields_pure]
        refine stays fun other there => ?_
        rw [found] at there
        cases there
        rw [Bool.not_eq_true', Bool.not_eq_false] at none
        exact List.isEmpty_iff.1 none

/-! ### Counting -/

/-- Counting stores what it finds out. -/
theorem recount_stores (effect : EffectName) (w : World π) :
    (recount rules effect).Yields w fun found w' => match found with
      | none => w' = w ∧ w.entity.effects.get? effect = none
      | some v => ∃ live, w.entity.effects.get? effect = some live ∧
          v.count.toNat = live.activeSum ∧
          v.active = (0 < v.count && !rules.isImmune w.entity effect) ∧
          v = ⟨live.serial, v.count, v.active, live.count != v.count, live.active != v.active⟩ ∧
          w' = { w with
            entity := w.entity.storeCount effect v.count v.active
            trace := .consulted w.entity :: w.trace } := by
  rw [recount, yields_bind, yields_entity]
  cases found : w.entity.effects.get? effect with
  | none =>
      rw [yields_pure]
      exact ⟨rfl, rfl⟩
  | some live =>
      apply yields_ite
      · intro _
        rw [yields_throw]
        trivial
      · intro bounded
        dsimp only
        rw [yields_bind, yields_consulted, yields_bind, yields_modifyEntity, yields_pure]
        refine ⟨live, rfl, ?_, rfl, rfl, rfl⟩
        exact UInt32.toNat_ofNat_of_lt' (Nat.lt_of_not_le bounded)

theorem holds_iff {v : Verdict} {e : Entity π} {effect : EffectName} {live : LiveEffect π}
    (found : e.effects.get? effect = some live) :
    v.holds e effect = true ↔
      live.serial = v.serial ∧ live.count = v.count ∧ live.active = v.active := by
  unfold Verdict.holds
  rw [found, Option.any_some, Bool.and_eq_true, Bool.and_eq_true, decide_eq_true_eq,
    decide_eq_true_eq, decide_eq_true_eq, and_assoc]

variable [CustomTrigger π]

/-! ### Stacks that go -/

theorem removeStack_cases {effect : EffectName} {id : Handle} {test : Bool → World π → Prop}
    (absent : w.entity.stack? effect id = none → test false w)
    (detaches : ∀ s e, w.entity.stack? effect id = some s →
      w.entity.detachStack? effect id = some e →
      (settleStacks nested rules effect).Yields { w with entity := e } fun _ w' => test true w') :
    (removeStack nested rules effect id).Yields w test := by
  rw [removeStack, yields_bind, yields_entity]
  cases detached : w.entity.detachStack? effect id with
  | none =>
      rw [yields_pure]
      exact absent (Entity.detachStack?_eq_none.1 detached)
  | some e =>
      simp only [yields_bind, yields_setEntity, yields_pure]
      have present : w.entity.stack? effect id ≠ none := by
        rw [Ne, ← Entity.detachStack?_eq_none, detached]
        exact Option.some_ne_none e
      obtain ⟨s, found⟩ := Option.ne_none_iff_exists'.1 present
      exact detaches s e found detached

theorem removeStacksOf_cases {effect : EffectName} {source : SourceTag} {test : Nat → World π → Prop}
    (none : (∀ live, w.entity.effects.get? effect = some live →
      (w.entity.detachStacks effect (live.stacksOf source)).1 = 0) → test 0 w)
    (detaches : ∀ live, w.entity.effects.get? effect = some live →
      0 < (w.entity.detachStacks effect (live.stacksOf source)).1 →
      (settleStacks nested rules effect).Yields
        { w with entity := (w.entity.detachStacks effect (live.stacksOf source)).2 }
        fun _ w' => test (w.entity.detachStacks effect (live.stacksOf source)).1 w') :
    (removeStacksOf nested rules effect source).Yields w test := by
  rw [removeStacksOf, yields_bind, yields_entity]
  cases found : w.entity.effects.get? effect with
  | none =>
      rw [yields_pure]
      refine none fun live there => ?_
      rw [found] at there
      cases there
  | some live =>
      rw [yields_bind, yields_updateEntity]
      refine yields_ite (fun some => ?_) fun zero => ?_
      · simp only [yields_bind, yields_pure]
        exact detaches live found some
      · have zero := Nat.eq_zero_of_not_pos zero
        rw [yields_pure, zero, Entity.detachStacks_of_zero zero]
        refine none fun other there => ?_
        rw [found] at there
        cases there
        exact zero

/-- An amount is drawn from the stacks, and those that come to zero go. -/
theorem reduceStacks_cases {effect : EffectName} {amount : UInt32} {test : UInt32 → World π → Prop}
    (none : test 0 w)
    (draws : ∀ live held left emptied, w.entity.effects.get? effect = some live →
      drawDown amount live.held.reverse = (held, left, emptied) →
      (settleStacks nested rules effect).Yields
        { w with entity := ((w.entity.setStacks effect held.reverse).detachStacks effect emptied).2 }
        fun _ w' => test (amount - left) w') :
    (reduceStacks nested rules effect amount).Yields w test := by
  rw [reduceStacks, yields_bind, yields_entity]
  cases found : w.entity.effects.get? effect with
  | none =>
      rw [yields_pure]
      exact none
  | some live =>
      refine yields_ite (fun _ => ?_) fun _ => ?_
      · rw [yields_pure]
        exact none
      · simp only [yields_bind, yields_modifyEntity, yields_pure]
        exact draws live _ _ _ found rfl

/-! ### Stacks that change -/

theorem stackFlipped_cases {effect : EffectName} {id : Handle} {test : Unit → World π → Prop}
    (absent : w.entity.stack? effect id = none → test () w)
    (goes : ∀ s e, w.entity.stack? effect id = some s → s.active = false → s.isSourced = false →
      w.entity.detachStack? effect id = some e →
      (settleStacks nested rules effect).Yields { w with entity := e } test)
    (stays : ∀ s, w.entity.stack? effect id = some s → (s.isSourced = false → s.active = true) →
      (settleStacks nested rules effect).Yields w test) :
    (stackFlipped nested rules effect id).Yields w test := by
  rw [stackFlipped, yields_bind, yields_entity]
  cases found : w.entity.stack? effect id with
  | none =>
      rw [yields_pure]
      exact absent found
  | some s =>
      refine yields_ite (fun gone => ?_) fun kept => ?_
      · rw [Bool.and_eq_true, Bool.not_eq_true', Bool.not_eq_true'] at gone
        rw [yields_bind]
        refine removeStack_cases (fun lost => ?_) fun _ e _ detached => ?_
        · rw [found] at lost
          cases lost
        · simp only [yields_pure]
          exact goes s e found gone.1 gone.2 detached
      · refine stays s found fun sourceless => ?_
        rw [sourceless] at kept
        simpa using kept

theorem stackStimulated_cases {effect : EffectName} {id : Handle} {test : Unit → World π → Prop}
    (absent : w.entity.stack? effect id = none → test () w)
    (same : ∀ s, w.entity.stack? effect id = some s → s.id = id → s.refresh.2 = false → test () w)
    (flips : ∀ s, w.entity.stack? effect id = some s → s.id = id →
      (stackFlipped nested rules effect id).Yields
        { w with entity := w.entity.updateStack effect id s.refresh.1 } test) :
    (stackStimulated nested rules effect id).Yields w test := by
  rw [stackStimulated, yields_bind, yields_entity]
  cases found : w.entity.stack? effect id with
  | none =>
      rw [yields_pure]
      exact absent found
  | some s =>
      obtain ⟨live, -, there⟩ := Option.bind_eq_some_iff.1 found
      have handle : s.id = id := LiveEffect.id_of_stack? there
      simp only [yields_bind, yields_modifyEntity]
      refine yields_ite (fun _ => flips s found handle) fun unchanged => ?_
      have unchanged : s.refresh.2 = false := Bool.eq_false_iff.2 unchanged
      rw [yields_pure, Stack.refresh_eq_self unchanged, Entity.updateStack_self found]
      exact same s found handle unchanged

/-! ### Stacks that come -/

theorem ensureLive_cases {d : EffectDefinition π} {test : Bool → World π → Prop}
    (lives : w.entity.effects.contains d.effect = true → test false w)
    (begins : w.entity.effects.contains d.effect = false → test true { w with
      entity := w.entity.acquireEffect.2.addEffect { w.entity.acquireEffect.1 with effect := d.effect }
        (d.customEffects.map fun custom =>
          custom.condition.pristine.arm (rules.readings w.entity.acquireEffect.2))
      trace := .consulted w.entity.acquireEffect.2 :: w.trace }) :
    (ensureLive rules d).Yields w test := by
  rw [ensureLive, yields_bind, yields_entity]
  refine yields_ite (fun there => ?_) fun missing => ?_
  · rw [yields_pure]
    exact lives there
  · simp only [yields_bind, yields_updateEntity, yields_consulted, yields_modifyEntity, yields_pure]
    exact begins (Bool.eq_false_iff.2 missing)

theorem pushStack_cases {effect : EffectName} {s : Stack π} {test : Outcome → World π → Prop}
    (pushes : w.entity.effects.contains effect = true → test (.stack s.id) { w with
      entity := w.entity.pushStack effect s
      trace := .stackPushed effect s w.entity :: w.trace })
    (discards : w.entity.effects.contains effect = false →
      test .discarded { w with entity := w.entity.releaseStack s.detach }) :
    (pushStack effect s).Yields w test := by
  rw [pushStack, yields_bind, yields_entity]
  refine yields_ite (fun live => ?_) fun missing => ?_
  · simp only [yields_bind, yields_record, yields_modifyEntity, yields_pure]
    exact pushes live
  · simp only [yields_bind, yields_modifyEntity, yields_pure]
    exact discards (Bool.eq_false_iff.2 missing)

theorem pushCapped_cases {effect : EffectName} {s : Stack π} {value : UInt32}
    {test : Outcome → World π → Prop}
    (discards : value = 0 → test .discarded { w with entity := w.entity.releaseStack s.detach })
    (pushes : value ≠ 0 → (pushStack effect { s with value := value }).Yields w test) :
    (pushCapped effect s value).Yields w test := by
  unfold pushCapped
  refine yields_ite (fun zero => ?_) pushes
  simp only [yields_bind, yields_modifyEntity, yields_pure]
  exact discards zero

variable {d : EffectDefinition π}

theorem mergeDuration_cases {target : Handle} {incoming : Stack π} {test : Unit → World π → Prop}
    (absent : w.entity.condition (.stack d.effect target) = .absent → test () w)
    (merges : ∀ c, w.entity.condition (.stack d.effect target) ≠ .absent →
      mergedDuration d.stacking
          (rules.readings (w.entity.setCondition (.stack d.effect target) .absent))
          (w.entity.condition (.stack d.effect target)) incoming.duration = c →
      test () { w with
        entity := (w.entity.setCondition (.stack d.effect target) c).subscribe (.stack d.effect target)
          ((w.entity.setCondition (.stack d.effect target) c).condition
            (.stack d.effect target)).interests
        trace := .consulted (w.entity.setCondition (.stack d.effect target) .absent) :: w.trace }) :
    (mergeDuration rules d target incoming).Yields w test := by
  rw [mergeDuration, yields_bind]
  refine (updateCondition_stores _ _ w).mono fun result w₁ stored => ?_
  rcases stored with ⟨none, rfl, rfl⟩ | ⟨there, rfl, rfl⟩
  · rw [yields_pure]
    exact absent none
  · rw [yields_modifyEntity]
    exact merges _ there rfl

/-- Once the durations are merged and the incoming stack waits in the pool, the earlier stack takes up
the value. -/
theorem mergeStack_cases {target : Handle} {incoming : Stack π} (before : World π → Prop)
    {test : Outcome → World π → Prop}
    (merges : (mergeDuration rules d target incoming).Yields w fun _ w₁ =>
      before { w₁ with entity := w₁.entity.releaseStack incoming.detach })
    (absent : ∀ w₂, before w₂ → w₂.entity.stack? d.effect target = none → test .discarded w₂)
    (same : ∀ w₂ s s', before w₂ → w₂.entity.stack? d.effect target = some s → s.id = target →
      { s with value := mergedValue d s.value incoming.value } = s' → s'.refresh.2 = false →
      test (.merged target)
        { w₂ with entity := w₂.entity.updateStack d.effect target s'.refresh.1 })
    (flips : ∀ w₂ s s', before w₂ → w₂.entity.stack? d.effect target = some s → s.id = target →
      { s with value := mergedValue d s.value incoming.value } = s' → s'.refresh.2 = true →
      (stackFlipped nested rules d.effect target).Yields
        { w₂ with entity := w₂.entity.updateStack d.effect target s'.refresh.1 }
        fun _ w' => test (.merged target) w') :
    (mergeStack nested rules d target incoming).Yields w test := by
  rw [mergeStack, yields_bind]
  refine merges.mono fun _ w₁ merged => ?_
  simp only [yields_bind, yields_modifyEntity, yields_entity]
  cases found : (w₁.entity.releaseStack incoming.detach).stack? d.effect target with
  | none =>
      rw [yields_pure]
      exact absent _ merged found
  | some s =>
      obtain ⟨live, -, there⟩ := Option.bind_eq_some_iff.1 found
      have handle : s.id = target := LiveEffect.id_of_stack? there
      simp only [yields_bind, yields_modifyEntity]
      refine yields_ite (fun changed => ?_) fun unchanged => ?_
      · simp only [yields_bind, yields_pure]
        exact flips _ s _ merged found handle rfl changed
      · rw [yields_pure]
        exact same _ s _ merged found handle rfl (Bool.eq_false_iff.2 unchanged)

theorem placeStack_of_sourced {s : Stack π} (sourced : s.isSourced = true) :
    placeStack nested rules d s = pushStack d.effect s := by
  rw [placeStack, sourced, Bool.not_true, Bool.and_false, if_neg Bool.false_ne_true, if_pos rfl]

theorem placeStack_cases {s : Stack π} {test : Outcome → World π → Prop}
    (discards : s.active = false → s.isSourced = false →
      test .discarded { w with entity := w.entity.releaseStack s.detach })
    (sourced : s.isSourced = true → (pushStack d.effect s).Yields w test)
    (separate : s.isSourced = false → s.active = true → d.stacking = .separate →
      (pushCapped d.effect s (min s.value (d.room (w.entity.activeCount d.effect)))).Yields w test)
    (first : s.isSourced = false → s.active = true → d.stacking ≠ .separate →
      (w.entity.effects.get? d.effect).bind LiveEffect.firstSourceless? = none →
      (pushCapped d.effect s (d.clamp s.value)).Yields w test)
    (merges : ∀ target, d.stacking ≠ .separate →
      (w.entity.effects.get? d.effect).bind LiveEffect.firstSourceless? = some target →
      (mergeStack nested rules d target s).Yields w test) :
    (placeStack nested rules d s).Yields w test := by
  unfold placeStack
  refine yields_ite (fun gone => ?_) fun kept => yields_ite sourced fun unsourced => ?_
  · rw [Bool.and_eq_true, Bool.not_eq_true', Bool.not_eq_true'] at gone
    simp only [yields_bind, yields_modifyEntity, yields_pure]
    exact discards gone.1 gone.2
  have sourceless : s.isSourced = false := Bool.eq_false_iff.2 unsourced
  have active : s.active = true := by
    rw [sourceless] at kept
    simpa using kept
  refine yields_ite (fun apart => ?_) fun joins => ?_
  · rw [yields_bind, yields_entity]
    exact separate sourceless active apart
  · rw [yields_bind, yields_entity]
    cases oldest : (w.entity.effects.get? d.effect).bind LiveEffect.firstSourceless? with
    | none => exact first sourceless active joins oldest
    | some target => exact merges target joins oldest

/-- A stack is attached under the next handle once its effect is live. If it was placed, the effect is
settled and its hook runs; else the effect goes again if it was made live for the stack. -/
theorem addStackOf_cases {s : Stack π} {source : Option SourceTag}
    (placed : Bool → Outcome → World π → Prop) {test : Outcome → World π → Prop}
    (places : (ensureLive rules d).Yields w fun created w₁ => ∀ s',
      ({ s with duration := stackDuration d s.duration, id := w₁.entity.nextHandle } :
        Stack π).attach (rules.readings w₁.entity.takeHandle.2) source = s' →
      s'.id = w₁.entity.nextHandle → (placeStack nested rules d s').Yields { w₁ with
        entity := w₁.entity.takeHandle.2
        trace := .consulted w₁.entity.takeHandle.2 :: w₁.trace } (placed created))
    (settles : ∀ created outcome w₂, placed created outcome w₂ → outcome.isApplied = true →
      (settleStacks nested rules d.effect).Yields w₂ fun _ w₃ =>
        (runHook nested (.stackAdded d.effect) d.effect d.onAddStack).Yields w₃ fun _ w' =>
          test outcome w')
    (stays : ∀ outcome w₂, placed false outcome w₂ → outcome.isApplied = false → test outcome w₂)
    (empties : ∀ outcome w₂, placed true outcome w₂ → outcome.isApplied = false →
      (removeIfEmpty nested rules d.effect).Yields w₂ fun _ w' => test outcome w') :
    (addStackOf nested rules d s source).Yields w test := by
  rw [addStackOf, yields_bind]
  refine places.mono fun created w₁ place => ?_
  simp only [yields_bind, yields_updateEntity, yields_consulted]
  refine (place _ rfl (Stack.attach_id ..)).mono fun outcome w₂ done => ?_
  refine yields_ite (fun applied => ?_) fun refused => ?_
  · simp only [yields_bind, yields_pure]
    exact settles created outcome w₂ done applied
  have refused : outcome.isApplied = false := Bool.eq_false_iff.2 refused
  cases created with
  | true =>
      simp only [if_true, yields_bind, yields_pure]
      exact empties outcome w₂ done refused
  | false =>
      simp only [Bool.false_eq_true, if_false, yields_pure]
      exact stays outcome w₂ done refused

theorem addStack_cases {effect : EffectName} {s : Stack π} {source : Option SourceTag}
    {test : Except RequestError Outcome → World π → Prop}
    (unknown : rules.effects.get? effect = none →
      test (.error (.unknownEffect effect)) { w with entity := w.entity.releaseStack s })
    (adds : ∀ d, rules.effects.get? effect = some d → d.effect = effect →
      (addStackOf nested rules d s source).Yields w fun outcome w' => test (.ok outcome) w') :
    (addStack nested rules effect s source).Yields w test := by
  unfold addStack
  cases registered : rules.effects.get? effect with
  | none =>
      simp only [yields_bind, yields_modifyEntity, yields_pure]
      exact unknown registered
  | some d =>
      rw [yields_map]
      exact adds d registered (rules.filed effect d registered)

theorem replaceStack_cases {effect : EffectName} {s : Stack π} {source : Option SourceTag}
    {test : Except RequestError Outcome → World π → Prop}
    (unknown : rules.effects.contains effect = false →
      test (.error (.unknownEffect effect)) { w with entity := w.entity.releaseStack s })
    (adds : source = none → rules.effects.contains effect = true →
      (addStack nested rules effect s none).Yields w test)
    (replaces : ∀ tag, source = some tag → rules.effects.contains effect = true →
      (removeStacksOf nested rules effect tag).Yields w fun _ w₁ =>
        (addStack nested rules effect s (some tag)).Yields w₁ test) :
    (replaceStack nested rules effect s source).Yields w test := by
  unfold replaceStack
  refine yields_ite (fun registered => ?_) fun missing => ?_
  · cases source with
    | none => exact adds rfl registered
    | some tag =>
        rw [yields_bind]
        exact replaces tag rfl registered
  · simp only [yields_bind, yields_modifyEntity, yields_pure]
    exact unknown (Bool.eq_false_iff.2 missing)

/-- A modifier of the stat of an effect becomes a stack. -/
theorem addModifier_cases {m : Modifier π} {source : Option SourceTag}
    {test : Outcome → World π → Prop}
    (inserts : (insertModifier nested rules m source).Yields w test)
    (adds : ∀ d, rules.effects.get? m.stat = some d → d.effect = m.stat →
      (addStackOf nested rules d { w.entity.acquireStack.1 with
        value := Single.toCount m.value, duration := m.duration } source).Yields
        { w with entity := w.entity.acquireStack.2.releaseModifier m } test) :
    (addModifier nested rules m source).Yields w test := by
  unfold addModifier
  cases registered : rules.effects.get? m.stat with
  | none => exact inserts
  | some d =>
      simp only [yields_bind, yields_updateEntity, yields_modifyEntity]
      exact adds d registered (rules.filed m.stat d registered)

end StatusEffects.Engine
