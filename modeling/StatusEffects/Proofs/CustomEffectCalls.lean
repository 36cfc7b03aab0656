import StatusEffects.Proofs.CallStages
import StatusEffects.Proofs.CustomEffectEvents

/-!
Every call takes its course.

Where a step ends, whether or not it comes back, lies on the course of the world it began in. Only a
step that fails may leave an event behind whose action ought to start and did not.
-/

set_option autoImplicit false

namespace StatusEffects

variable {π : Type} [CustomTrigger π]

namespace Engine

open Act

def Ends (rules : Rulebook π) (calls : Call π → Prop) {α : Type} (w : World π) :
    EStateM.Result Fault (World π) α → Prop
  | .ok _ w' => Course rules calls True w w'
  | .error _ w' => Course rules calls False w w'

/-- From every world a step ends on the course of that world. -/
def Charted (rules : Rulebook π) (calls : Call π → Prop) {α : Type} (m : Act π α) : Prop :=
  ∀ w, Ends rules calls w (m w)

/-- How requests are served: announcements take their course, and a hook of the rules either does not
start or takes its course once it has started. -/
structure Serves (rules : Rulebook π) (calls : Call π → Prop) (nested : Nested π) : Prop where
  announces : ∀ stat, Charted rules calls (nested (.announce stat))
  runs : ∀ {hook script}, rules.Starts hook script → ∀ w,
    (∃ f, nested (.run hook script) w = .error f w) ∨
      Ends rules calls (w.begin hook) (nested (.run hook script) w)

variable {rules : Rulebook π} {calls : Call π → Prop} {α β : Type}

theorem Ends.after {w w₁ : World π} (course : Course rules calls True w w₁)
    {result : EStateM.Result Fault (World π) α} (ends : Ends rules calls w₁ result) :
    Ends rules calls w result := by
  cases result with
  | ok a w' => exact course.trans ends
  | error f w' => exact course.loosen.trans ends

theorem Ends.bind {m : Act π α} {f : α → Act π β} {w w₁ : World π}
    (first : Ends rules calls w (m w₁)) (second : ∀ a, Charted rules calls (f a)) :
    Ends rules calls w ((m >>= f) w₁) := by
  change Ends rules calls w (EStateM.bind m f w₁)
  unfold EStateM.bind
  cases ends : m w₁ with
  | ok a w₂ =>
      rw [ends] at first
      exact .after first (second a w₂)
  | error fault w₂ =>
      rw [ends] at first
      exact first

theorem Ends.modify {f : Unit → Act π α} {change : Entity π → Entity π} {w : World π}
    (quiet : w.entity.Quiet rules calls (change w.entity)) (rest : Charted rules calls (f ())) :
    Ends rules calls w ((Act.modifyEntity change >>= f) w) :=
  .after (.of_quiet quiet) (rest { w with entity := change w.entity })

theorem Ends.update {f : β → Act π α} {change : Entity π → β × Entity π} {w w₁ : World π}
    (rest : Ends rules calls w (f (change w₁.entity).1 { w₁ with entity := (change w₁.entity).2 })) :
    Ends rules calls w ((Act.updateEntity change >>= f) w₁) := rest

theorem Ends.consult {f : Entity π → Act π α} {w w₁ : World π}
    (rest : Ends rules calls w (f w₁.entity { w₁ with trace := .consulted w₁.entity :: w₁.trace })) :
    Ends rules calls w ((Act.consulted >>= f) w₁) := rest

namespace Charted

theorem pure (a : α) : Charted rules calls (Pure.pure a : Act π α) := fun w => Course.refl w

theorem bind {m : Act π α} {f : α → Act π β} (first : Charted rules calls m)
    (second : ∀ a, Charted rules calls (f a)) : Charted rules calls (m >>= f) :=
  fun w => .bind (first w) second

/-- What is done next may depend on the entity as it is. -/
theorem read {f : Entity π → Act π α} (each : ∀ w, Ends rules calls w (f w.entity w)) :
    Charted rules calls (Act.entity >>= f) := each

theorem entity : Charted rules calls (Act.entity : Act π (Entity π)) := fun w => Course.refl w

theorem modifyEntity {change : Entity π → Entity π}
    (quiet : ∀ e : Entity π, e.Quiet rules calls (change e)) :
    Charted rules calls (Act.modifyEntity change) :=
  fun w => Course.of_quiet (quiet w.entity)

theorem updateEntity {change : Entity π → α × Entity π}
    (quiet : ∀ e : Entity π, e.Quiet rules calls (change e).2) :
    Charted rules calls (Act.updateEntity change) :=
  fun w => Course.of_quiet (quiet w.entity)

theorem record {mark : Entity π → Occurrence π} (plain : ∀ e, (mark e).isCustom = false) :
    Charted rules calls (Act.record mark) :=
  fun w => Course.mark w (plain w.entity)

theorem running (change : List Hook → List Hook) :
    Charted rules calls
      (modify fun w : World π => { w with running := change w.running } : Act π Unit) :=
  fun w => Course.running w (change w.running)

theorem forM {f : α → Act π Unit} (list : List α) (each : ∀ a, Charted rules calls (f a)) :
    Charted rules calls (list.forM f) := by
  induction list with
  | nil => exact pure ()
  | cons a rest ih => exact (each a).bind fun _ => ih

theorem foldlM {f : β → α → Act π β} (list : List α) (each : ∀ b a, Charted rules calls (f b a))
    (b : β) : Charted rules calls (list.foldlM f b) := by
  induction list generalizing b with
  | nil => exact pure b
  | cons a rest ih =>
      rw [List.foldlM_cons]
      exact (each b a).bind ih

theorem bindE {ε : Type} {m : ExceptT ε (Act π) α} {f : α → ExceptT ε (Act π) β}
    (first : Charted rules calls m.run) (second : ∀ a, Charted rules calls (f a).run) :
    Charted rules calls (m >>= f).run := by
  rw [ExceptT.run_bind]
  refine first.bind fun result => ?_
  cases result with
  | ok a => exact second a
  | error e => exact pure _

theorem forME {ε : Type} {f : α → ExceptT ε (Act π) Unit} (list : List α)
    (each : ∀ a, Charted rules calls (f a).run) : Charted rules calls (list.forM f).run := by
  induction list with
  | nil => exact pure (Except.ok ())
  | cons a rest ih => exact bindE (each a) fun _ => ih

end Charted

/-! ### Pools -/

theorem acquireModifier_charted :
    Charted rules calls (updateEntity (Entity.acquireModifier (π := π))) :=
  .updateEntity fun _ => .of_same Entity.Tidy.acquireModifier (Nat.le_refl _) rfl

theorem releaseModifier_charted (m : Modifier π) :
    Charted rules calls (modifyEntity fun e => e.releaseModifier m) :=
  .modifyEntity fun _ => .of_same (fun tidy => tidy.releaseModifier m) (Nat.le_refl _) rfl

theorem acquireStack_charted : Charted rules calls (updateEntity (Entity.acquireStack (π := π))) :=
  .updateEntity fun _ => .of_same Entity.Tidy.acquireStack (Nat.le_refl _) rfl

theorem releaseStack_charted (s : Stack π) :
    Charted rules calls (modifyEntity fun e => e.releaseStack s) :=
  .modifyEntity fun _ => .of_same (fun tidy => tidy.releaseStack s) (Nat.le_refl _) rfl

variable {nested : Nested π} (serves : Serves rules calls nested)

/-! ### Modifiers -/

section

include serves

theorem removeModifierAt_charted (stat : StatName) (id : Handle) :
    Charted rules calls (removeModifierAt nested stat id) := by
  refine .read fun w => ?_
  cases dropped : w.entity.dropModifier? stat id with
  | none => exact Charted.pure false w
  | some e =>
      refine Ends.bind (Course.of_quiet (.dropModifier dropped)) fun _ => ?_
      exact (serves.announces stat).bind fun _ => .pure true

theorem removeModifiersOf_charted (source : SourceTag) :
    Charted rules calls (removeModifiersOf nested source) := by
  refine .bind .entity fun e => ?_
  dsimp only
  split
  · exact .pure 0
  · refine .bind (.modifyEntity fun e => .dropModifiersOf e source) fun _ => ?_
    exact .bind (.forM _ serves.announces) fun _ => .pure _

theorem removeModifier_charted (id : Handle) :
    Charted rules calls (removeModifier nested id) := by
  refine .bind .entity fun e => ?_
  cases e.modifiers.statOf? id with
  | none => exact .pure false
  | some stat => exact .bind (.record fun _ => rfl) fun _ => removeModifierAt_charted serves stat id

theorem modifierStimulated_charted (stat : StatName) (id : Handle) :
    Charted rules calls (modifierStimulated nested stat id) := by
  refine .read fun w => ?_
  cases found : w.entity.modifiers.find? stat id with
  | none => exact Charted.pure () w
  | some m =>
      refine .modify (.updateModifier found) ?_
      split
      · split
        · exact (removeModifierAt_charted serves stat id).bind fun _ => .pure ()
        · exact serves.announces stat
      · exact .pure ()

theorem insertModifier_charted (m : Modifier π) (source : Option SourceTag) :
    Charted rules calls (insertModifier nested rules m source) := by
  intro w
  have new := Modifier.attach_id ({ m with id := w.entity.nextHandle } : Modifier π)
    (rules.readings w.entity.takeHandle.2) source
  generalize made : ({ m with id := w.entity.nextHandle } : Modifier π).attach
    (rules.readings w.entity.takeHandle.2) source = m' at new
  have numbered : Course rules calls True w { w with
      entity := w.entity.takeHandle.2
      trace := .consulted w.entity.takeHandle.2 :: w.trace } :=
    .trans (.of_quiet (.takeHandle w.entity)) (.mark _ rfl)
  have added : Course rules calls True w { w with
      entity := w.entity.takeHandle.2.addModifier rules.operators m'
      trace := .consulted w.entity.takeHandle.2 :: w.trace } :=
    .trans (.of_quiet (.addModifier w.entity rules.operators new)) (.of_advance
      (.quiet [.consulted w.entity.takeHandle.2] (.refl _)
        (List.forall_mem_singleton.2 rfl) rfl))
  rw [insertModifier_run made]
  split
  · exact .after numbered (((releaseModifier_charted m'.detach).bind fun _ => .pure _) _)
  · exact .after added (((serves.announces m'.stat).bind fun _ => .pure _) _)

theorem copyModifiers_charted (modifiers : List (Modifier π)) :
    Charted rules calls (copyModifiers nested rules modifiers) :=
  .foldlM _ (fun _ _ => acquireModifier_charted.bind fun _ =>
    (insertModifier_charted serves _ _).bind fun _ => .pure _) 0

/-! ### Effects that flip and go -/

theorem run_charted {hook : Hook} {script : Script π Unit} (starts : rules.Starts hook script)
    (other : ∀ effect serial index, hook ≠ .custom effect serial index) :
    Charted rules calls (nested (.run hook script)) := by
  intro w
  rcases serves.runs starts w with ⟨f, fails⟩ | ends
  · rw [fails]
    exact Course.refl w
  · exact .after (.begin w other) ends

theorem announceFlip_charted (effect : EffectName) (active : Bool) :
    Charted rules calls (announceFlip nested rules effect active) := by
  have other (name : EffectName) (serial : Handle) (index : Nat) :
      Hook.ofFlip effect active ≠ .custom name serial index := by
    cases active with
    | true => nofun
    | false => nofun
  rw [announceFlip_eq]
  refine .bind ?_ fun _ => .record fun _ => rfl
  cases there : rules.flipScript? effect active with
  | none => exact .pure ()
  | some script => exact run_charted serves (.ofFlip there) other

theorem removeLive_charted (effect : EffectName) :
    Charted rules calls (removeLive nested rules effect) := by
  refine .bind .entity fun e => ?_
  cases e.effects.get? effect with
  | none => exact .pure ()
  | some live =>
      refine .bind (.modifyEntity fun e => .dropEffect e effect live) fun _ => ?_
      refine .bind (.record fun _ => rfl) fun _ => ?_
      refine (removeModifiersOf_charted serves _).bind fun _ => ?_
      split
      · exact announceFlip_charted serves effect false
      · exact .pure ()

theorem removeIfEmpty_charted (effect : EffectName) :
    Charted rules calls (removeIfEmpty nested rules effect) := by
  refine .bind .entity fun e => ?_
  split
  · exact removeLive_charted serves effect
  · exact .pure ()

/-! ### Settling -/

omit serves in
theorem drain_charted (effect : EffectName) : Charted rules calls (drain (π := π) effect) := by
  refine .bind .entity fun e => ?_
  cases e.effects.get? effect with
  | none => exact .pure ()
  | some live =>
      dsimp only
      split
      · refine .bind (.modifyEntity fun e => .detachStacks e effect live.sourcelessStacks) fun _ => ?_
        exact .record fun _ => rfl
      · exact .pure ()

omit serves in
theorem recount_charted (effect : EffectName) : Charted rules calls (recount rules effect) := by
  refine .bind .entity fun e => ?_
  cases e.effects.get? effect with
  | none => exact .pure none
  | some live =>
      dsimp only
      split
      · exact fun w => Course.refl w
      · refine .bind (.bind (.record fun _ => rfl) fun _ => .entity) fun e => ?_
        exact .bind (.modifyEntity fun e => .storeCount e effect _ _) fun _ => .pure _

theorem renewModifiers_charted (definition : EffectDefinition π) (active : Bool) (count : UInt32) :
    Charted rules calls (renewModifiers nested rules definition active count) := by
  have ends : Charted rules calls (record (.renewalEnded definition.effect)) :=
    .record fun _ => rfl
  refine .bind (.record fun _ => rfl) fun _ => ?_
  refine (removeModifiersOf_charted serves _).bind fun _ => ?_
  split
  · refine .bind (.forM _ fun template => ?_) fun _ => ends
    refine acquireModifier_charted.bind fun blank => ?_
    refine .bind (.record fun _ => rfl) fun _ => ?_
    exact (insertModifier_charted serves _ _).bind fun _ => .pure ()
  · exact ends

theorem settle_charted (effect : EffectName) : Charted rules calls (settle nested rules effect) := by
  refine (recount_charted effect).bind fun found => ?_
  cases found with
  | none => exact .pure ()
  | some v =>
      have flips : Charted rules calls (settleFlip nested rules effect v) := by
        unfold settleFlip
        split
        · exact (announceFlip_charted serves effect v.active).bind fun _ =>
            .bind .entity fun _ => .pure _
        · exact .pure true
      have renews : Charted rules calls (settleModifiers nested rules effect v) := by
        unfold settleModifiers
        cases rules.effects.get? effect with
        | none => exact .pure true
        | some definition =>
            dsimp only
            split
            · exact (renewModifiers_charted serves definition v.active v.count).bind fun _ =>
                .bind .entity fun _ => .pure _
            · exact .pure true
      have ends : Charted rules calls (settleEnd nested rules effect v) := by
        unfold settleEnd
        split
        · exact (drain_charted effect).bind fun _ => removeIfEmpty_charted serves effect
        · exact .pure ()
      refine flips.bind fun still => ?_
      split
      · refine renews.bind fun still => ?_
        split
        · exact ends
        · exact .pure ()
      · exact .pure ()

theorem settleStacks_charted (effect : EffectName) :
    Charted rules calls (settleStacks nested rules effect) :=
  .bind (.record fun _ => rfl) fun _ => settle_charted serves effect

/-! ### Stacks that go or change -/

theorem removeStack_charted (effect : EffectName) (id : Handle) :
    Charted rules calls (removeStack nested rules effect id) := by
  refine .read fun w => ?_
  cases detached : w.entity.detachStack? effect id with
  | none => exact Charted.pure false w
  | some e =>
      refine Ends.bind (Course.of_quiet (.detachStack detached)) fun _ => ?_
      exact (settleStacks_charted serves effect).bind fun _ => .pure true

theorem removeStacksOf_charted (effect : EffectName) (source : SourceTag) :
    Charted rules calls (removeStacksOf nested rules effect source) := by
  refine .bind .entity fun e => ?_
  cases e.effects.get? effect with
  | none => exact .pure 0
  | some live =>
      refine .bind (.updateEntity fun e => .detachStacks e effect _) fun removed => ?_
      dsimp only
      split
      · exact (settleStacks_charted serves effect).bind fun _ => .pure _
      · exact .pure _

theorem reduceStacks_charted (effect : EffectName) (amount : UInt32) :
    Charted rules calls (reduceStacks nested rules effect amount) := by
  refine .read fun w => ?_
  cases found : w.entity.effects.get? effect with
  | none => exact Charted.pure 0 w
  | some live =>
      dsimp only
      split
      · exact Charted.pure 0 w
      · have drawn : List.Forall₂ Stack.Drawn (drawDown amount live.held.reverse).1.reverse
            live.held := drawDown_reverse rfl
        refine .modify (.trans (.setStacks found drawn) (.detachStacks _ effect _)) ?_
        exact (settleStacks_charted serves effect).bind fun _ => .pure _

theorem removeEffect_charted (effect : EffectName) :
    Charted rules calls (removeEffect nested rules effect) := by
  refine .bind .entity fun e => ?_
  split
  · exact (removeLive_charted serves effect).bind fun _ => .pure true
  · exact .pure false

theorem refreshImmunity_charted : Charted rules calls (refreshImmunity nested rules) :=
  .bind .entity fun _ => .forM _ fun effect => settle_charted serves effect

theorem stackFlipped_charted (effect : EffectName) (id : Handle) :
    Charted rules calls (stackFlipped nested rules effect id) := by
  refine .bind .entity fun e => ?_
  cases e.stack? effect id with
  | none => exact .pure ()
  | some s =>
      dsimp only
      split
      · exact (removeStack_charted serves effect id).bind fun _ => .pure ()
      · exact settleStacks_charted serves effect

theorem stackStimulated_charted (effect : EffectName) (id : Handle) :
    Charted rules calls (stackStimulated nested rules effect id) := by
  refine .read fun w => ?_
  cases found : w.entity.stack? effect id with
  | none => exact Charted.pure () w
  | some s =>
      obtain ⟨live, -, stack⟩ := Option.bind_eq_some_iff.1 found
      have handle : s.id = id := LiveEffect.id_of_stack? stack
      refine .modify (.updateStack handle) ?_
      split
      · exact stackFlipped_charted serves effect id
      · exact .pure ()

/-! ### Stacks that come -/

omit serves in
theorem ensureLive_charted (called : ∃ c, calls c) {name : EffectName}
    {definition : EffectDefinition π} (registered : rules.effects.get? name = some definition) :
    Charted rules calls (ensureLive rules definition) := by
  refine .read fun w => ?_
  split
  · exact Charted.pure false w
  · exact .of_advance (.quiet [.consulted w.entity.acquireEffect.2]
      (.addEffect w.entity called registered _) (List.forall_mem_singleton.2 rfl) rfl)

omit serves in
theorem mergeDuration_charted (definition : EffectDefinition π) (target : Handle)
    (incoming : Stack π) :
    Charted rules calls (mergeDuration rules definition target incoming) := by
  refine .bind ?_ fun result => ?_
  · unfold updateCondition
    refine .bind .entity fun e => ?_
    cases e.condition (.stack definition.effect target) with
    | absent => exact .pure none
    | node head next alternative =>
        refine .bind (.modifyEntity fun e => .setCondition e _ nofun) fun _ => ?_
        refine .bind (.bind (.record fun _ => rfl) fun _ => .entity) fun e => ?_
        exact .bind (.modifyEntity fun e => .setCondition e _ nofun) fun _ => .pure _
  · cases result with
    | none => exact .pure ()
    | some _ => exact .modifyEntity fun e => .subscribe e _ _

theorem mergeStack_charted (definition : EffectDefinition π) (target : Handle)
    (incoming : Stack π) :
    Charted rules calls (mergeStack nested rules definition target incoming) := by
  refine (mergeDuration_charted definition target incoming).bind fun _ => ?_
  refine (releaseStack_charted _).bind fun _ => ?_
  refine .read fun w => ?_
  cases found : w.entity.stack? definition.effect target with
  | none => exact Charted.pure Outcome.discarded w
  | some s =>
      obtain ⟨live, -, stack⟩ := Option.bind_eq_some_iff.1 found
      have handle : s.id = target := LiveEffect.id_of_stack? stack
      refine .modify (.updateStack handle) ?_
      split
      · exact (stackFlipped_charted serves definition.effect target).bind fun _ => .pure _
      · exact .pure _

omit serves in
theorem numbered_course {w w₁ : World π} {s : Stack π} (numbered : Numbered w w₁ s) :
    Course rules calls True w w₁ := by
  obtain ⟨-, rfl⟩ := numbered
  exact .trans (.of_quiet (.takeHandle w.entity)) (.mark _ rfl)

omit serves in
theorem discarded_charted (s : Stack π) :
    Charted rules calls (do Act.modifyEntity fun e => e.releaseStack s; Pure.pure Outcome.discarded) :=
  (releaseStack_charted s).bind fun _ => .pure _

omit serves in
/-- The stack that the last handle was taken for joins. -/
theorem pushStack_ends {w w₁ : World π} {s : Stack π} (numbered : Numbered w w₁ s)
    (effect : EffectName) : Ends rules calls w (pushStack effect s w₁) := by
  have discards : Ends rules calls w ((do
      Act.modifyEntity fun e => e.releaseStack s.detach
      Pure.pure Outcome.discarded : Act π Outcome) w₁) :=
    .after (numbered_course numbered) (discarded_charted s.detach w₁)
  obtain ⟨new, rfl⟩ := numbered
  rw [pushStack, entity_bind]
  split
  · exact .of_advance (.quiet
      [.stackPushed effect s w.entity.takeHandle.2, .consulted w.entity.takeHandle.2]
      (.pushStack effect new) (List.forall_mem_cons.2 ⟨rfl, List.forall_mem_singleton.2 rfl⟩) rfl)
  · exact discards

omit serves in
theorem pushCapped_ends {w w₁ : World π} {s : Stack π} (numbered : Numbered w w₁ s)
    (effect : EffectName) (value : UInt32) : Ends rules calls w (pushCapped effect s value w₁) := by
  unfold pushCapped
  split
  · exact .after (numbered_course numbered) (discarded_charted s.detach w₁)
  · exact pushStack_ends (s := { s with value := value }) numbered effect

theorem placeStack_ends {w w₁ : World π} {s : Stack π} (numbered : Numbered w w₁ s)
    (definition : EffectDefinition π) :
    Ends rules calls w (placeStack nested rules definition s w₁) := by
  have before : Course rules calls True w w₁ := numbered_course numbered
  unfold placeStack
  split
  · exact .after before (discarded_charted s.detach w₁)
  · split
    · exact pushStack_ends numbered definition.effect
    · split
      · exact pushCapped_ends numbered definition.effect _
      · rw [entity_bind]
        cases (w₁.entity.effects.get? definition.effect).bind LiveEffect.firstSourceless? with
        | some target => exact .after before (mergeStack_charted serves definition target s w₁)
        | none => exact pushCapped_ends numbered definition.effect _

theorem addStackOf_charted (called : ∃ c, calls c) {name : EffectName}
    {definition : EffectDefinition π} (registered : rules.effects.get? name = some definition)
    (s : Stack π) (source : Option SourceTag) :
    Charted rules calls (addStackOf nested rules definition s source) := by
  refine (ensureLive_charted called registered).bind fun created w => ?_
  generalize numbered : ({ s with
    duration := stackDuration definition s.duration
    id := w.entity.nextHandle } : Stack π).attach (rules.readings w.entity.takeHandle.2) source = s'
  have new : s'.id = w.entity.nextHandle := by
    rw [← numbered]
    exact Stack.attach_id _ _ _
  have placed : Ends rules calls w (placeStack nested rules definition s' { w with
      entity := w.entity.takeHandle.2
      trace := .consulted w.entity.takeHandle.2 :: w.trace }) :=
    placeStack_ends serves ⟨new, rfl⟩ definition
  rw [← numbered] at placed
  refine .update (.consult (.bind placed fun outcome => ?_))
  dsimp only
  split
  · refine (settleStacks_charted serves definition.effect).bind fun _ => .bind ?_ fun _ => .pure _
    cases there : definition.onAddStack with
    | none => exact .pure ()
    | some script =>
        rw [← rules.filed name definition registered] at registered
        exact run_charted serves (.stackAdded registered there) nofun
  · split
    · exact (removeIfEmpty_charted serves definition.effect).bind fun _ => .pure _
    · exact .pure _

theorem addStack_charted (called : ∃ c, calls c) (effect : EffectName) (s : Stack π)
    (source : Option SourceTag) : Charted rules calls (addStack nested rules effect s source) := by
  unfold addStack
  cases registered : rules.effects.get? effect with
  | none => exact (releaseStack_charted s).bind fun _ => .pure _
  | some definition =>
      exact .bind (addStackOf_charted serves called registered s source) fun _ => .pure _

theorem replaceStack_charted (called : ∃ c, calls c) (effect : EffectName) (s : Stack π)
    (source : Option SourceTag) :
    Charted rules calls (replaceStack nested rules effect s source) := by
  have adds := addStack_charted serves called effect s source
  unfold replaceStack
  split
  · cases source with
    | none => exact adds
    | some tag => exact (removeStacksOf_charted serves effect tag).bind fun _ => adds
  · exact (releaseStack_charted s).bind fun _ => .pure _

theorem addModifier_charted (called : ∃ c, calls c) (m : Modifier π) (source : Option SourceTag) :
    Charted rules calls (addModifier nested rules m source) := by
  unfold addModifier
  cases registered : rules.effects.get? m.stat with
  | none => exact insertModifier_charted serves m source
  | some definition =>
      refine acquireStack_charted.bind fun blank => (releaseModifier_charted m).bind fun _ => ?_
      exact addStackOf_charted serves called registered _ source

/-! ### Events -/

omit serves in
/-- An event either finds no tree, or goes through the tree and leaves it in another state. -/
theorem stimulate_run (rules : Rulebook π) (owner : Owner) (stimulus : Stimulus) (w : World π) :
    (w.entity.condition owner = .absent ∧ stimulate rules owner stimulus w = .ok false w) ∨
      (w.entity.condition owner ≠ .absent ∧ ∃ r, stimulate rules owner stimulus w =
        .ok (Stimulus.apply stimulus r (w.entity.condition owner)).2
          (w.stirred owner stimulus (Stimulus.apply stimulus r (w.entity.condition owner)).1)) := by
  cases there : w.entity.condition owner with
  | absent =>
      have looks : updateCondition rules owner (Stimulus.apply stimulus) w = .ok none w := by
        rw [updateCondition, entity_bind, there]
        rfl
      exact .inl ⟨rfl, bind_run looks⟩
  | node head next alternative =>
      have looks : updateCondition rules owner (Stimulus.apply stimulus) w =
          .ok (some (Stimulus.apply stimulus (rules.readings (w.entity.setCondition owner .absent))
            (.node head next alternative)).2) { w with
              entity := (w.entity.setCondition owner .absent).setCondition owner
                (Stimulus.apply stimulus (rules.readings (w.entity.setCondition owner .absent))
                  (.node head next alternative)).1
              trace := .consulted (w.entity.setCondition owner .absent) :: w.trace } := by
        rw [updateCondition, entity_bind, there]
        rfl
      rw [Entity.setCondition_setCondition] at looks
      refine .inr ⟨fun absent => ?_, _, bind_run looks⟩
      cases absent

omit serves in
theorem stimulate_charted (owner : Owner) (stimulus : Stimulus)
    (other : ∀ effect serial index, owner ≠ .custom effect serial index) :
    Charted rules calls (stimulate rules owner stimulus) := by
  intro w
  rcases stimulate_run rules owner stimulus w with ⟨-, run⟩ | ⟨-, r, run⟩
  · rw [run]
    exact Course.refl w
  · rw [run]
    have plain (left : Condition π) (seen : Entity π) :
        (Occurrence.stimulated owner stimulus left seen).isCustom = false := by
      cases owner with
      | custom effect serial index => exact absurd rfl (other effect serial index)
      | _ => rfl
    exact .of_advance (.quiet [.stimulated .., .consulted _]
      (.setCondition w.entity _ other)
      (List.forall_mem_cons.2 ⟨plain _ _, List.forall_mem_singleton.2 rfl⟩) rfl)

omit serves in
/-- A condition of a custom effect starts again, of which nobody is told. -/
theorem restart_charted (effect : EffectName) (serial : Handle) (index : Nat) :
    Charted rules calls (stimulate rules (.custom effect serial index) .restart) := by
  intro w
  rcases stimulate_run rules (.custom effect serial index) .restart w with
    ⟨-, run⟩ | ⟨there, r, run⟩
  · rw [run]
    exact Course.refl w
  · rw [run]
    exact .of_advance (.stirred .restart r there fun _ _ _ setsOff => setsOff.told rfl)

/-- A custom effect hears that its condition changed: its action starts if that is set off. -/
theorem customStimulated_ends {effect : EffectName} {serial : Handle} {index : Nat} {w : World π}
    {stimulus : Stimulus} {r : Readings} {left : Condition π} (told : stimulus ≠ .restart)
    (there : w.entity.condition (.custom effect serial index) ≠ .absent)
    (applied : Stimulus.apply stimulus r (w.entity.condition (.custom effect serial index)) =
      (left, true)) :
    Ends rules calls w (customStimulated nested rules effect serial index
      (w.stirred (.custom effect serial index) stimulus left)) := by
  have stirs {strict : Prop} (idle : strict → ∀ script,
      rules.Starts (.custom effect serial index) script → left.holds false = false) :
      Course rules calls strict w (w.stirred (.custom effect serial index) stimulus left) := by
    have advance : Advance rules calls strict w _ :=
      .stirred stimulus r there fun asked script starts setsOff => by
        have met := setsOff.met
        rw [applied, idle asked script starts] at met
        cases met
    rw [applied] at advance
    exact .of_advance advance
  have found : (w.stirred (.custom effect serial index) stimulus left).entity.condition
      (.custom effect serial index) = left := Entity.condition_setCondition_custom there left
  rw [customStimulated, entity_bind]
  dsimp only
  rw [found]
  cases left with
  | absent => exact stirs fun _ _ _ => rfl
  | node head next alternative =>
      have restarts : Charted rules calls (do
          if head.restartsOnMet then
            let _ ← stimulate rules (.custom effect serial index) .restart) := by
        split
        · exact (restart_charted effect serial index).bind fun _ => .pure ()
        · exact .pure ()
      dsimp only
      split
      · rename_i met
        cases registered : (rules.effects.get? effect).bind fun d => d.customEffects[index]? with
        | none =>
            -- No such custom effect is registered, so no action is due.
            refine .after (stirs fun _ script starts => ?_) (restarts _)
            cases starts with
            | custom known listed =>
                rw [known, Option.bind_some, listed] at registered
                cases registered
        | some custom =>
            obtain ⟨d, known, listed⟩ := Option.bind_eq_some_iff.1 registered
            have starts : rules.Starts (.custom effect serial index) (custom.action effect) :=
              .custom known listed
            refine .bind ?_ fun _ => restarts
            -- An action that cannot start leaves the event behind, and the call fails.
            rcases serves.runs starts (w.stirred (.custom effect serial index) stimulus
              (.node head next alternative)) with ⟨f, fails⟩ | ends
            · rw [fails]
              exact stirs False.elim
            · refine .after (.of_advance ?_) ends
              have setsOff : stimulus.SetsOff r
                  (w.entity.condition (.custom effect serial index)) :=
                ⟨told, by rw [applied], by rw [applied]; exact met⟩
              have advance : Advance rules calls True w _ := .fired there setsOff starts
              rw [applied] at advance
              exact advance
      · rename_i unmet
        exact .after (stirs fun _ _ _ => Bool.not_eq_true _ ▸ unmet) (restarts _)

/-- An event that goes through the condition of a custom effect sets off its action if it ought to. -/
theorem exposeCustom_charted (effect : EffectName) (serial : Handle) (index : Nat)
    {stimulus : Stimulus} (told : stimulus ≠ .restart) :
    Charted rules calls (expose nested rules (.custom effect serial index) stimulus) := by
  intro w
  rcases stimulate_run rules (.custom effect serial index) stimulus w with
    ⟨-, run⟩ | ⟨there, r, run⟩
  · rw [expose, bind_run run]
    exact Course.refl w
  · rw [expose, bind_run run]
    split
    · rename_i changed
      exact customStimulated_ends serves told there (Prod.ext rfl changed)
    · rename_i unchanged
      exact .of_advance (.stirred stimulus r there fun _ _ _ setsOff => unchanged setsOff.changed)

theorem expose_charted (owner : Owner) {stimulus : Stimulus} (told : stimulus ≠ .restart) :
    Charted rules calls (expose nested rules owner stimulus) := by
  cases owner with
  | modifier stat id =>
      refine (stimulate_charted (.modifier stat id) stimulus nofun).bind fun changed => ?_
      split
      · exact modifierStimulated_charted serves stat id
      · exact .pure ()
  | stack effect id =>
      refine (stimulate_charted (.stack effect id) stimulus nofun).bind fun changed => ?_
      split
      · exact stackStimulated_charted serves effect id
      · exact .pure ()
  | custom effect serial index => exact exposeCustom_charted serves effect serial index told

theorem announceStat_charted (stat : StatName) :
    Charted rules calls (announceStat nested rules stat) := by
  refine .bind (.record fun _ => rfl) fun _ => .bind .entity fun e => .forM _ fun owner => ?_
  refine .bind .entity fun e => ?_
  split
  · exact expose_charted serves owner nofun
  · exact .pure ()

theorem takeTurn_charted (delta : Float32) (index : Nat) :
    Charted rules calls (takeTurn nested rules delta index) := by
  refine .bind .entity fun e => ?_
  dsimp only
  cases e.timers.owners[index]? with
  | none => exact .pure ()
  | some owner =>
      refine .bind (.record fun _ => rfl) fun _ => ?_
      split
      · exact expose_charted serves owner nofun
      · exact .pure ()

omit serves in
/-- What is no part of the bookkeeping may change. -/
theorem aside_charted {change : Entity π → Entity π} (tidy : ∀ e : Entity π, e.Tidy → (change e).Tidy)
    (handles : ∀ e, (change e).nextHandle = e.nextHandle)
    (effects : ∀ e, (change e).effects = e.effects) :
    Charted rules calls (Act.modifyEntity change) :=
  .modifyEntity fun e => .of_same (tidy e) (Nat.le_of_eq (handles e).symm) (effects e)

theorem passTime_charted (delta : Float32) : Charted rules calls (passTime nested rules delta) := by
  refine .bind (.record fun _ => rfl) fun _ => .bind .entity fun e => ?_
  dsimp only
  refine .bind (aside_charted (fun _ tidy => { tidy with }) (fun _ => rfl) fun _ => rfl) fun _ => ?_
  refine .bind (.forM _ fun index => takeTurn_charted serves delta index) fun _ => ?_
  refine .bind (aside_charted (fun _ tidy => { tidy with }) (fun _ => rfl) fun _ => rfl) fun _ => ?_
  exact .record fun _ => rfl

/-! ### Calls and scripts -/

theorem setStat_charted (stat : StatName) (change : StatValue → StatValue) :
    Charted rules calls (setStat nested rules stat change) := by
  unfold setStat
  refine .bind (aside_charted (fun _ tidy => { tidy with }) (fun _ => rfl) fun _ => rfl) fun _ => ?_
  refine (serves.announces stat).bind fun _ => ?_
  cases registered : rules.modifiedHooks.get? stat with
  | none => exact .pure ()
  | some hook =>
      refine .bind .entity fun e => ?_
      split
      · refine .bind (aside_charted (fun _ tidy => { tidy with }) (fun _ => rfl) fun _ => rfl)
          fun _ => ?_
        refine (run_charted serves (.modified registered) nofun).bind fun _ => ?_
        exact aside_charted (fun _ tidy => { tidy with }) (fun _ => rfl) fun _ => rfl
      · exact .pure ()

theorem performWith_charted (c : Call π) (called : calls c) :
    Charted rules calls (performWith nested rules c) := by
  cases c with
  | setBase stat value => exact setStat_charted serves stat fun v => { v with base := value }
  | setCurrent stat value => exact setStat_charted serves stat fun v => { v with current := value }
  | acquireModifier => exact acquireModifier_charted
  | acquireStack => exact acquireStack_charted
  | addModifier m source => exact addModifier_charted serves ⟨_, called⟩ m source
  | removeModifier id => exact removeModifier_charted serves id
  | removeModifiersOf source => exact removeModifiersOf_charted serves source
  | copyModifiers other source => exact copyModifiers_charted serves _
  | addStack effect s source => exact addStack_charted serves ⟨_, called⟩ effect s source
  | replaceStack effect s source => exact replaceStack_charted serves ⟨_, called⟩ effect s source
  | removeStack effect id => exact removeStack_charted serves effect id
  | removeStacksOf effect source => exact removeStacksOf_charted serves effect source
  | reduceStacks effect amount => exact reduceStacks_charted serves effect amount
  | removeEffect effect => exact removeEffect_charted serves effect
  | refreshImmunity => exact refreshImmunity_charted serves
  | passTime delta => exact passTime_charted serves delta

theorem runScriptWith_charted {α : Type} (script : Script π α)
    (called : ∀ c, script.Makes c → calls c) :
    Charted rules calls (runScriptWith nested rules script) := by
  induction script with
  | done result => exact .pure result
  | call c next ih =>
      refine (performWith_charted serves c (called c .here)).bind fun reply => ?_
      exact .bind (.record fun _ => rfl) fun _ => ih reply fun other made => called other (.called made)
  | look next ih =>
      exact fun w => ih _ (fun other made => called other (.looked made)) w
  | note answer next ih =>
      exact .bind (.record fun _ => rfl) fun _ => ih fun other made => called other (.noted made)

end

/-- Requests are served with any number of levels, if the hooks make no other calls. -/
theorem serve_charted
    (called : ∀ {hook script}, rules.Starts hook script → ∀ c, script.Makes c → calls c)
    (levels : Nat) : Serves rules calls (serve rules levels) := by
  induction levels with
  | zero => exact ⟨fun stat w => Course.refl w, fun starts w => .inl ⟨_, rfl⟩⟩
  | succ levels ih =>
      refine ⟨fun stat => announceStat_charted ih stat, fun {hook script} starts w => .inr ?_⟩
      have rest : Charted rules calls (do
          runScriptWith (serve rules levels) rules script
          record (.hookEnded hook)
          modify fun w => { w with running := w.running.tail }) :=
        (runScriptWith_charted ih script (called starts)).bind fun _ =>
          .bind (.record fun _ => rfl) fun _ => .running List.tail
      exact rest (w.begin hook)

theorem addParts_charted
    (called : ∀ {hook script}, rules.Starts hook script → ∀ c, script.Makes c → calls c)
    (some : ∃ c, calls c) (snapshot : Snapshot) (levels : Nat) :
    Charted rules calls (snapshot.addParts rules levels).run := by
  have serves : Serves rules calls (serve rules levels) := serve_charted called levels
  unfold Snapshot.addParts
  refine .bindE (.forME _ fun form => ?_) fun _ => .forME _ fun live => .forME _ fun form => ?_
  · unfold Snapshot.addModifier
    cases form.build rules.conditionTypes with
    | error e => exact .pure _
    | ok m => exact .bindE ((insertModifier_charted serves m _).bind fun _ => .pure _) fun _ => .pure _
  · unfold Snapshot.addStack
    cases form.build rules.conditionTypes with
    | error e => exact .pure _
    | ok s => exact .bindE (addStack_charted serves some live.effect s _) fun _ => .pure _

theorem perform_charted (levels : Nat) (c : Call π) :
    Charted rules (fun _ => True) (perform rules levels c) :=
  performWith_charted (serve_charted (fun _ _ _ => trivial) levels) c trivial

end Engine

open Engine

/-- Where a step ends, whether or not it comes back, lies on the course of the world it began in. -/
theorem Engine.Ends.left {rules : Rulebook π} {calls : Call π → Prop} {α : Type} {w : World π}
    {result : EStateM.Result Fault (World π) α} (ends : Ends rules calls w result) :
    Course rules calls False w (Act.left result) := by
  cases result with
  | ok a w' => exact ends.loosen
  | error f w' => exact ends

/-- A run takes its course from an entity with nothing but stats. -/
theorem Reached.course {rules : Rulebook π} {snapshots : Snapshot → Prop}
    {calls : Entity π → Call π → Prop} {w : World π} (reached : Reached rules snapshots calls w) :
    ∃ values, Course rules (fun _ => True) True
      (.ofEntity { Entity.new with values := values }) w := by
  induction reached with
  | new => exact ⟨∅, .refl _⟩
  | @restored levels snapshot w _ restores =>
      have charted : Charted rules (fun _ => True) (snapshot.addParts rules levels).run :=
        addParts_charted (fun _ _ _ => trivial) ⟨.refreshImmunity, trivial⟩ snapshot levels
      have ends := charted (.ofEntity { Entity.new with values := snapshot.stats })
      rw [show ExceptT.run (snapshot.addParts rules levels) _ = _ from restores] at ends
      exact ⟨snapshot.stats, ends⟩
  | @called levels w w' c reply _ admitted returns ih =>
      obtain ⟨values, course⟩ := ih
      have ends := (perform_charted levels c : Charted rules _ _) w
      rw [returns] at ends
      exact ⟨values, course.trans ends⟩

end StatusEffects
