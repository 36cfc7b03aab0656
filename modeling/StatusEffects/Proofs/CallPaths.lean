import Mathlib.Logic.Relation
import StatusEffects.Proofs.CallStages
import StatusEffects.Proofs.Faults
import StatusEffects.Proofs.SourcedStacks

/-!
The paths of calls through one level of nesting.

On its way a call makes discreet changes, tells what happens, and has requests served one level deeper.
Nothing else happens: a call that comes back has gone such a path, and a call that fails has gone one up
to a count that overflows or to a request that fails. What requests are served with is left open, so
what holds of every stride at one level can be carried through all levels by induction.

Whose stacks may come, go or change, and whether stats may be set, is the leeway of a path.
-/

set_option autoImplicit false

namespace StatusEffects

variable {π : Type}

def Occurrence.isOfScript : Occurrence π → Bool
  | .hookStarted .. | .hookEnded .. | .called .. | .noted .. => true
  | _ => false

/-- Whoever sees the entity when something happens sees that certain modified hooks run. -/
def Occurrence.Shows (o : Occurrence π) (modifying : List StatName) : Prop :=
  ∀ e, o.seen? = some e → e.modifying = modifying

theorem Occurrence.shows_of_seen {o : Occurrence π} {e : Entity π} (seen : o.seen? = some e) :
    o.Shows e.modifying := by
  intro e' shown
  rw [seen] at shown
  cases shown
  rfl

/-- A call may add, take out or change stacks of an effect. -/
def Call.Concerns : Call π → EffectName → Prop
  | .addModifier m _, effect => m.stat = effect
  | .addStack name .., effect | .replaceStack name .., effect | .removeStack name _, effect
  | .removeStacksOf name _, effect | .reduceStacks name _, effect | .removeEffect name, effect =>
    name = effect
  | _, _ => False

def Call.Sets : Call π → Prop
  | .setBase .. | .setCurrent .. => True
  | _ => False

namespace Engine

open Act

/-- The requests on a path: announcements, and hooks of the rules. The hook of a stat only runs where
stats may be set. -/
inductive Due (rules : Rulebook π) (leeway : Leeway) : Request π → Prop where
  | announce (stat : StatName) : Due rules leeway (.announce stat)
  | run {hook : Hook} {script : Script π Unit} (starts : rules.Starts hook script)
      (may : leeway.sets ∨ ∀ stat, hook ≠ .modified stat) : Due rules leeway (.run hook script)

inductive Stride (rules : Rulebook π) (nested : Nested π) (leeway : Leeway) :
    World π → World π → Prop where
  | change {w : World π} {e : Entity π} (discreet : w.entity.Discreet leeway e) :
      Stride rules nested leeway w { w with entity := e }
  | tell {w : World π} (o : Occurrence π) (plain : o.isOfScript = false)
      (seen : o.Shows w.entity.modifying) :
      Stride rules nested leeway w { w with trace := o :: w.trace }
  | request {w w' : World π} {r : Request π} (due : Due rules leeway r)
      (served : nested r w = .ok () w') : Stride rules nested leeway w w'

def Path (rules : Rulebook π) (nested : Nested π) (leeway : Leeway) : World π → World π → Prop :=
  Relation.ReflTransGen (Stride rules nested leeway)

/-- What stops a call on its path: a count that overflows, or a request that fails. -/
inductive Stops (rules : Rulebook π) (nested : Nested π) (leeway : Leeway) :
    Fault → World π → World π → Prop where
  | overflow (effect : EffectName) (w : World π) :
      Stops rules nested leeway (.countOverflow effect) w w
  | request {f : Fault} {w w' : World π} {r : Request π} (due : Due rules leeway r)
      (fails : nested r w = .error f w') : Stops rules nested leeway f w w'

def Arrives (rules : Rulebook π) (nested : Nested π) (leeway : Leeway) {α : Type} (w : World π) :
    EStateM.Result Fault (World π) α → Prop
  | .ok _ w' => Path rules nested leeway w w'
  | .error f w' => ∃ w₁, Path rules nested leeway w w₁ ∧ Stops rules nested leeway f w₁ w'

/-- From every world a step goes such a path. -/
def Paved (rules : Rulebook π) (nested : Nested π) (leeway : Leeway) {α : Type} (m : Act π α) : Prop :=
  ∀ w, Arrives rules nested leeway w (m w)

variable {rules : Rulebook π} {nested : Nested π} {leeway : Leeway} {α β : Type}

namespace Path

variable {w w₁ w₂ : World π}

theorem refl (w : World π) : Path rules nested leeway w w := Relation.ReflTransGen.refl

theorem trans (first : Path rules nested leeway w w₁) (second : Path rules nested leeway w₁ w₂) :
    Path rules nested leeway w w₂ :=
  Relation.ReflTransGen.trans first second

theorem of_stride (stride : Stride rules nested leeway w w₁) : Path rules nested leeway w w₁ :=
  Relation.ReflTransGen.single stride

theorem change {e : Entity π} (discreet : w.entity.Discreet leeway e) :
    Path rules nested leeway w { w with entity := e } :=
  of_stride (.change discreet)

theorem tell (w : World π) {o : Occurrence π} (plain : o.isOfScript = false)
    (seen : o.Shows w.entity.modifying) :
    Path rules nested leeway w { w with trace := o :: w.trace } :=
  of_stride (.tell o plain seen)

/-- What every stride keeps, a path keeps. -/
theorem keeps (test : World π → Prop) (path : Path rules nested leeway w w₁)
    (step : ∀ w w', Stride rules nested leeway w w' → test w → test w') (start : test w) :
    test w₁ := by
  induction path with
  | refl => exact start
  | tail _ stride ih => exact step _ _ stride ih

/-- A relation that every stride keeps is kept by a path. -/
theorem steady {relation : World π → World π → Prop} (steady : Steady relation)
    (step : ∀ w w', Stride rules nested leeway w w' → relation w w')
    (path : Path rules nested leeway w w₁) : relation w w₁ := by
  induction path with
  | refl => exact steady.refl w
  | tail _ stride ih => exact steady.trans ih (step _ _ stride)

end Path

theorem Arrives.after {w w₁ : World π} (path : Path rules nested leeway w w₁)
    {result : EStateM.Result Fault (World π) α} (arrives : Arrives rules nested leeway w₁ result) :
    Arrives rules nested leeway w result := by
  cases result with
  | ok a w' => exact path.trans arrives
  | error f w' =>
      obtain ⟨w₂, before, stops⟩ := arrives
      exact ⟨w₂, path.trans before, stops⟩

theorem Arrives.bind {m : Act π α} {f : α → Act π β} {w w₁ : World π}
    (first : Arrives rules nested leeway w (m w₁)) (second : ∀ a, Paved rules nested leeway (f a)) :
    Arrives rules nested leeway w ((m >>= f) w₁) := by
  change Arrives rules nested leeway w (EStateM.bind m f w₁)
  unfold EStateM.bind
  cases ends : m w₁ with
  | ok a w₂ =>
      rw [ends] at first
      exact .after first (second a w₂)
  | error fault w₂ =>
      rw [ends] at first
      exact first

theorem Arrives.modify {f : Unit → Act π α} {change : Entity π → Entity π} {w : World π}
    (discreet : w.entity.Discreet leeway (change w.entity)) (rest : Paved rules nested leeway (f ())) :
    Arrives rules nested leeway w ((Act.modifyEntity change >>= f) w) :=
  .after (.change discreet) (rest { w with entity := change w.entity })

theorem Arrives.update {f : β → Act π α} {change : Entity π → β × Entity π} {w w₁ : World π}
    (rest : Arrives rules nested leeway w
      (f (change w₁.entity).1 { w₁ with entity := (change w₁.entity).2 })) :
    Arrives rules nested leeway w ((Act.updateEntity change >>= f) w₁) := rest

theorem Arrives.consult {f : Entity π → Act π α} {w w₁ : World π}
    (rest : Arrives rules nested leeway w
      (f w₁.entity { w₁ with trace := .consulted w₁.entity :: w₁.trace })) :
    Arrives rules nested leeway w ((Act.consulted >>= f) w₁) := rest

namespace Paved

theorem pure (a : α) : Paved rules nested leeway (Pure.pure a : Act π α) := fun w => Path.refl w

theorem bind {m : Act π α} {f : α → Act π β} (first : Paved rules nested leeway m)
    (second : ∀ a, Paved rules nested leeway (f a)) : Paved rules nested leeway (m >>= f) :=
  fun w => .bind (first w) second

/-- What is done next may depend on the entity as it is. -/
theorem read {f : Entity π → Act π α} (each : ∀ w, Arrives rules nested leeway w (f w.entity w)) :
    Paved rules nested leeway (Act.entity >>= f) := each

theorem entity : Paved rules nested leeway (Act.entity : Act π (Entity π)) := fun w => Path.refl w

theorem modifyEntity {change : Entity π → Entity π}
    (discreet : ∀ e : Entity π, e.Discreet leeway (change e)) :
    Paved rules nested leeway (Act.modifyEntity change) :=
  fun w => Path.change (discreet w.entity)

theorem updateEntity {change : Entity π → α × Entity π}
    (discreet : ∀ e : Entity π, e.Discreet leeway (change e).2) :
    Paved rules nested leeway (Act.updateEntity change) :=
  fun w => Path.change (discreet w.entity)

theorem record {mark : Entity π → Occurrence π} (plain : ∀ e, (mark e).isOfScript = false)
    (seen : ∀ e, (mark e).seen? = some e) : Paved rules nested leeway (Act.record mark) :=
  fun w => Path.tell w (plain w.entity) (Occurrence.shows_of_seen (seen w.entity))

theorem consulted : Paved rules nested leeway (Act.consulted : Act π (Entity π)) :=
  .bind (.record (fun _ => rfl) fun _ => rfl) fun _ => .entity

theorem request {r : Request π} (due : Due rules leeway r) : Paved rules nested leeway (nested r) := by
  intro w
  cases ends : nested r w with
  | ok a w' => exact .of_stride (.request due ends)
  | error f w' => exact ⟨w, .refl w, .request due ends⟩

theorem announce (stat : StatName) : Paved rules nested leeway (nested (.announce stat)) :=
  .request (.announce stat)

theorem forM {f : α → Act π Unit} (list : List α) (each : ∀ a, Paved rules nested leeway (f a)) :
    Paved rules nested leeway (list.forM f) := by
  induction list with
  | nil => exact pure ()
  | cons a rest ih => exact (each a).bind fun _ => ih

theorem foldlM {f : β → α → Act π β} (list : List α)
    (each : ∀ b a, Paved rules nested leeway (f b a)) (b : β) :
    Paved rules nested leeway (list.foldlM f b) := by
  induction list generalizing b with
  | nil => exact pure b
  | cons a rest ih =>
      rw [List.foldlM_cons]
      exact (each b a).bind ih

theorem bindE {ε : Type} {m : ExceptT ε (Act π) α} {f : α → ExceptT ε (Act π) β}
    (first : Paved rules nested leeway m.run) (second : ∀ a, Paved rules nested leeway (f a).run) :
    Paved rules nested leeway (m >>= f).run := by
  rw [ExceptT.run_bind]
  refine first.bind fun result => ?_
  cases result with
  | ok a => exact second a
  | error e => exact pure _

theorem forME {ε : Type} {f : α → ExceptT ε (Act π) Unit} (list : List α)
    (each : ∀ a, Paved rules nested leeway (f a).run) :
    Paved rules nested leeway (list.forM f).run := by
  induction list with
  | nil => exact pure (Except.ok ())
  | cons a rest ih => exact bindE (each a) fun _ => ih

end Paved

/-- That a handle was taken shows nobody another modified hook, so it may be told beforehand. -/
theorem handle_told (w : World π) :
    Path rules nested leeway w { w with trace := .consulted w.entity.takeHandle.2 :: w.trace } :=
  .tell w rfl fun e shown => by
    cases shown
    rfl

/-! ### Modifiers -/

theorem acquireModifier_paved :
    Paved rules nested leeway (updateEntity (Entity.acquireModifier (π := π))) :=
  .updateEntity fun _ => .of_same Entity.Tidy.acquireModifier rfl rfl

theorem releaseModifier_paved (m : Modifier π) :
    Paved rules nested leeway (modifyEntity fun e => e.releaseModifier m) :=
  .modifyEntity fun _ => .of_same (fun tidy => tidy.releaseModifier m) rfl rfl

theorem removeModifierAt_paved (stat : StatName) (id : Handle) :
    Paved rules nested leeway (removeModifierAt nested stat id) := by
  refine .read fun w => ?_
  cases dropped : w.entity.dropModifier? stat id with
  | none => exact Paved.pure false w
  | some e =>
      refine Arrives.bind (Path.change (.dropModifier dropped)) fun _ => ?_
      exact (Paved.announce stat).bind fun _ => .pure true

theorem removeModifiersOf_paved (source : SourceTag) :
    Paved rules nested leeway (removeModifiersOf nested source) := by
  refine .bind .entity fun e => ?_
  dsimp only
  split
  · exact .pure 0
  · refine .bind (.modifyEntity fun e => .dropModifiersOf e source) fun _ => ?_
    exact .bind (.forM _ Paved.announce) fun _ => .pure _

theorem removeModifier_paved (id : Handle) :
    Paved rules nested leeway (removeModifier nested id) := by
  refine .bind .entity fun e => ?_
  cases e.modifiers.statOf? id with
  | none => exact .pure false
  | some stat =>
      exact .bind (.record (fun _ => rfl) fun _ => rfl) fun _ => removeModifierAt_paved stat id

theorem modifierStimulated_paved (stat : StatName) (id : Handle) :
    Paved rules nested leeway (modifierStimulated nested stat id) := by
  refine .read fun w => ?_
  cases found : w.entity.modifiers.find? stat id with
  | none => exact Paved.pure () w
  | some m =>
      refine .modify (.updateModifier found) ?_
      split
      · split
        · exact (removeModifierAt_paved stat id).bind fun _ => .pure ()
        · exact .announce stat
      · exact .pure ()

/-! ### Effects that flip and go -/

/-- A hook of the rules for an effect is due. -/
theorem runHook_paved {hook : Hook} {effect : EffectName} {script : Option (EffectHook π)}
    (starts : ∀ s, script = some s → rules.Starts hook (s effect))
    (other : ∀ stat, hook ≠ .modified stat) :
    Paved rules nested leeway (runHook nested hook effect script) := by
  cases script with
  | none => exact .pure ()
  | some s => exact .request (.run (starts s rfl) (.inr other))

theorem announceFlip_paved (effect : EffectName) (active : Bool) :
    Paved rules nested leeway (announceFlip nested rules effect active) := by
  have other (stat : StatName) : Hook.ofFlip effect active ≠ .modified stat := by
    cases active with
    | true => nofun
    | false => nofun
  rw [announceFlip_eq]
  exact .bind (runHook_paved (fun _ there => .ofFlip there) other) fun _ =>
    .record (fun _ => rfl) fun _ => rfl

/-- An effect is taken out that holds no stacks, or whose deeds may change. -/
theorem removeLive_arrives {effect : EffectName} {w : World π}
    (here : leeway.effects effect ∨ ∀ live, w.entity.effects.get? effect = some live →
      live.held = []) :
    Arrives rules nested leeway w (removeLive nested rules effect w) := by
  rw [removeLive, entity_bind]
  cases found : w.entity.effects.get? effect with
  | none => exact Paved.pure () w
  | some live =>
      refine .modify (.dropEffect found (here.imp_right fun empty => empty live found)) ?_
      refine .bind (.record (fun _ => rfl) fun _ => rfl) fun _ => ?_
      refine (removeModifiersOf_paved _).bind fun _ => ?_
      split
      · exact announceFlip_paved effect false
      · exact .pure ()

theorem removeIfEmpty_paved (effect : EffectName) :
    Paved rules nested leeway (removeIfEmpty nested rules effect) := by
  refine .read fun w => ?_
  split
  · rename_i empty
    refine removeLive_arrives (.inr fun live found => ?_)
    rw [found] at empty
    exact List.isEmpty_iff.1 empty
  · exact Paved.pure () w

/-! ### Settling -/

theorem drain_paved (effect : EffectName) : Paved rules nested leeway (drain (π := π) effect) := by
  refine .read fun w => ?_
  cases found : w.entity.effects.get? effect with
  | none => exact Paved.pure () w
  | some live =>
      dsimp only
      split
      · refine .modify (.drain found) ?_
        exact .record (fun _ => rfl) fun _ => rfl
      · exact Paved.pure () w

theorem recount_paved (effect : EffectName) : Paved rules nested leeway (recount rules effect) := by
  refine .bind .entity fun e => ?_
  cases e.effects.get? effect with
  | none => exact .pure none
  | some live =>
      dsimp only
      split
      · exact fun w => ⟨w, .refl w, .overflow live.effect w⟩
      · refine Paved.consulted.bind fun e => ?_
        exact .bind (.modifyEntity fun e => .storeCount e effect _ _) fun _ => .pure _

variable [CustomTrigger π]

/-- A modifier takes a handle and joins the list of its stat, unless it is expired and nobody owns
it. -/
theorem insertModifier_paved (m : Modifier π) (source : Option SourceTag) :
    Paved rules nested leeway (insertModifier nested rules m source) := by
  intro w
  have new := Modifier.attach_id ({ m with id := w.entity.nextHandle } : Modifier π)
    (rules.readings w.entity.takeHandle.2) source
  generalize made : ({ m with id := w.entity.nextHandle } : Modifier π).attach
    (rules.readings w.entity.takeHandle.2) source = m' at new
  rw [insertModifier_run made]
  split
  · refine .after ((handle_told w).trans (.change (.takeHandle w.entity))) ?_
    exact ((releaseModifier_paved m'.detach).bind fun _ => .pure _) _
  · refine .after ((handle_told w).trans (.change (.addModifier w.entity rules.operators new))) ?_
    exact ((Paved.announce m'.stat).bind fun _ => .pure _) _

theorem renewModifiers_paved (definition : EffectDefinition π) (active : Bool) (count : UInt32) :
    Paved rules nested leeway (renewModifiers nested rules definition active count) := by
  have ends : Paved rules nested leeway (record (.renewalEnded definition.effect)) :=
    .record (fun _ => rfl) fun _ => rfl
  refine .bind (.record (fun _ => rfl) fun _ => rfl) fun _ => ?_
  refine (removeModifiersOf_paved _).bind fun _ => ?_
  split
  · refine .bind (.forM _ fun template => ?_) fun _ => ends
    refine acquireModifier_paved.bind fun blank => ?_
    refine .bind (.record (fun _ => rfl) fun _ => rfl) fun _ => ?_
    exact (insertModifier_paved _ _).bind fun _ => .pure ()
  · exact ends

theorem settle_paved (effect : EffectName) : Paved rules nested leeway (settle nested rules effect) := by
  refine (recount_paved effect).bind fun found => ?_
  cases found with
  | none => exact .pure ()
  | some v =>
      have flips : Paved rules nested leeway (settleFlip nested rules effect v) := by
        unfold settleFlip
        split
        · exact (announceFlip_paved effect v.active).bind fun _ => .bind .entity fun _ => .pure _
        · exact .pure true
      have renews : Paved rules nested leeway (settleModifiers nested rules effect v) := by
        unfold settleModifiers
        cases rules.effects.get? effect with
        | none => exact .pure true
        | some definition =>
            dsimp only
            split
            · exact (renewModifiers_paved definition v.active v.count).bind fun _ =>
                .bind .entity fun _ => .pure _
            · exact .pure true
      have ends : Paved rules nested leeway (settleEnd nested rules effect v) := by
        unfold settleEnd
        split
        · exact (drain_paved effect).bind fun _ => removeIfEmpty_paved effect
        · exact .pure ()
      refine flips.bind fun still => ?_
      split
      · refine renews.bind fun still => ?_
        split
        · exact ends
        · exact .pure ()
      · exact .pure ()

theorem settleStacks_paved (effect : EffectName) :
    Paved rules nested leeway (settleStacks nested rules effect) :=
  .bind (.record (fun _ => rfl) fun _ => rfl) fun _ => settle_paved effect

theorem copyModifiers_paved (modifiers : List (Modifier π)) :
    Paved rules nested leeway (copyModifiers nested rules modifiers) :=
  .foldlM _ (fun _ _ => acquireModifier_paved.bind fun _ =>
    (insertModifier_paved _ _).bind fun _ => .pure _) 0

/-! ### Stacks that go or change -/

/-- A stack is taken out that nobody owns, or of an effect whose deeds may change. -/
theorem removeStack_arrives {effect : EffectName} {id : Handle} {w : World π}
    (here : leeway.effects effect ∨ ∀ s, w.entity.stack? effect id = some s → s.source = none) :
    Arrives rules nested leeway w (removeStack nested rules effect id w) := by
  rw [removeStack, entity_bind]
  cases detached : w.entity.detachStack? effect id with
  | none => exact Paved.pure false w
  | some e =>
      refine Arrives.bind (Path.change (.detachStack detached here)) fun _ => ?_
      exact (settleStacks_paved effect).bind fun _ => .pure true

theorem removeStacksOf_paved {effect : EffectName} (may : leeway.effects effect)
    (source : SourceTag) : Paved rules nested leeway (removeStacksOf nested rules effect source) := by
  refine .bind .entity fun e => ?_
  cases e.effects.get? effect with
  | none => exact .pure 0
  | some live =>
      refine .bind (.updateEntity fun e => .detachStacks e (.inl may)) fun removed => ?_
      dsimp only
      split
      · exact (settleStacks_paved effect).bind fun _ => .pure _
      · exact .pure _

theorem reduceStacks_paved {effect : EffectName} (may : leeway.effects effect) (amount : UInt32) :
    Paved rules nested leeway (reduceStacks nested rules effect amount) := by
  refine .read fun w => ?_
  cases found : w.entity.effects.get? effect with
  | none => exact Paved.pure 0 w
  | some live =>
      dsimp only
      split
      · exact Paved.pure 0 w
      · have drawn : List.Forall₂ Stack.Drawn (drawDown amount live.held.reverse).1.reverse
            live.held := drawDown_reverse rfl
        refine .modify (.trans (.setStacks may found drawn) (.detachStacks _ (.inl may))) ?_
        exact (settleStacks_paved effect).bind fun _ => .pure _

omit [CustomTrigger π] in
theorem removeEffect_paved {effect : EffectName} (may : leeway.effects effect) :
    Paved rules nested leeway (removeEffect nested rules effect) := by
  refine .bind .entity fun e => ?_
  split
  · exact Paved.bind (fun w => removeLive_arrives (.inl may)) fun _ => .pure true
  · exact .pure false

theorem refreshImmunity_paved : Paved rules nested leeway (refreshImmunity nested rules) :=
  .bind .entity fun _ => .forM _ settle_paved

/-- A stack whose activity changed only goes if nobody owns it. -/
theorem stackFlipped_paved (effect : EffectName) (id : Handle) :
    Paved rules nested leeway (stackFlipped nested rules effect id) := by
  refine .read fun w => ?_
  cases found : w.entity.stack? effect id with
  | none => exact Paved.pure () w
  | some s =>
      dsimp only
      split
      · rename_i goes
        refine .bind (removeStack_arrives (.inr fun other there => ?_)) fun _ => .pure ()
        rw [found] at there
        cases there
        unfold Stack.isSourced at goes
        simp only [Bool.and_eq_true, Bool.not_eq_true', Option.isSome_eq_false_iff,
          Option.isNone_iff_eq_none] at goes
        exact goes.2
      · exact settleStacks_paved effect w

theorem stackStimulated_paved (effect : EffectName) (id : Handle) :
    Paved rules nested leeway (stackStimulated nested rules effect id) := by
  refine .read fun w => ?_
  cases found : w.entity.stack? effect id with
  | none => exact Paved.pure () w
  | some s =>
      refine .modify (.refreshStack found) ?_
      split
      · exact stackFlipped_paved effect id
      · exact .pure ()

/-! ### Stacks that come -/

omit [CustomTrigger π] in
theorem acquireStack_paved : Paved rules nested leeway (updateEntity (Entity.acquireStack (π := π))) :=
  .updateEntity fun _ => .of_same Entity.Tidy.acquireStack rfl rfl

omit [CustomTrigger π] in
theorem releaseStack_paved (s : Stack π) :
    Paved rules nested leeway (modifyEntity fun e => e.releaseStack s) :=
  .modifyEntity fun _ => .of_same (fun tidy => tidy.releaseStack s) rfl rfl

omit [CustomTrigger π] in
theorem discarded_paved (s : Stack π) : Paved rules nested leeway
    (do Act.modifyEntity fun e => e.releaseStack s; Pure.pure Outcome.discarded) :=
  (releaseStack_paved s).bind fun _ => .pure _

theorem ensureLive_paved (definition : EffectDefinition π) :
    Paved rules nested leeway (ensureLive rules definition) := by
  refine .read fun w => ?_
  split
  · exact Paved.pure false w
  · rename_i absent
    have consulted : Path rules nested leeway w
        { w with trace := .consulted w.entity.acquireEffect.2 :: w.trace } :=
      .tell w rfl fun e shown => by
        cases shown
        rfl
    exact consulted.trans (.change (.addEffect (Bool.not_eq_true _ ▸ absent) _))

omit [CustomTrigger π] in
theorem updateCondition_paved {α : Type} (owner : Owner)
    (change : Readings → Condition π → Condition π × α) :
    Paved rules nested leeway (updateCondition rules owner change) := by
  refine .bind .entity fun e => ?_
  cases e.condition owner with
  | absent => exact .pure none
  | node head next alternative =>
      refine .bind (.modifyEntity fun e => .setCondition e owner _) fun _ => ?_
      refine Paved.consulted.bind fun e => ?_
      exact .bind (.modifyEntity fun e => .setCondition e owner _) fun _ => .pure _

theorem mergeDuration_paved (definition : EffectDefinition π) (target : Handle)
    (incoming : Stack π) :
    Paved rules nested leeway (mergeDuration rules definition target incoming) := by
  refine (updateCondition_paved _ _).bind fun result => ?_
  cases result with
  | none => exact .pure ()
  | some _ => exact .modifyEntity fun e => .subscribe e _ _

theorem mergeStack_paved {definition : EffectDefinition π} (may : leeway.effects definition.effect)
    (target : Handle) (incoming : Stack π) :
    Paved rules nested leeway (mergeStack nested rules definition target incoming) := by
  refine (mergeDuration_paved definition target incoming).bind fun _ => ?_
  refine (releaseStack_paved _).bind fun _ => ?_
  refine .read fun w => ?_
  cases found : w.entity.stack? definition.effect target with
  | none => exact Paved.pure Outcome.discarded w
  | some s =>
      obtain ⟨live, -, stack⟩ := Option.bind_eq_some_iff.1 found
      have handle : s.id = target := LiveEffect.id_of_stack? stack
      refine .modify (.updateStack may handle) ?_
      split
      · exact (stackFlipped_paved definition.effect target).bind fun _ => .pure _
      · exact .pure _

omit [CustomTrigger π] in
theorem Numbered.path {w w₁ : World π} {s : Stack π} (numbered : Numbered w w₁ s) :
    Path rules nested leeway w w₁ := by
  obtain ⟨-, rfl⟩ := numbered
  exact (handle_told w).trans (.change (.takeHandle w.entity))

/-- The stack that the last handle was taken for joins. -/
theorem pushStack_arrives {w w₁ : World π} {s : Stack π} (numbered : Numbered w w₁ s)
    {effect : EffectName} (may : leeway.effects effect) :
    Arrives rules nested leeway w (pushStack effect s w₁) := by
  have discards : Arrives rules nested leeway w ((do
      Act.modifyEntity fun e => e.releaseStack s.detach
      Pure.pure Outcome.discarded : Act π Outcome) w₁) :=
    .after numbered.path (discarded_paved s.detach w₁)
  obtain ⟨new, rfl⟩ := numbered
  rw [pushStack, entity_bind]
  split
  · have told : Path rules nested leeway w { w with
        trace := .stackPushed effect s w.entity.takeHandle.2 ::
          .consulted w.entity.takeHandle.2 :: w.trace } :=
      (handle_told w).trans (.tell _ rfl fun e shown => by
        cases shown
        rfl)
    exact told.trans (.change (.pushStack may new))
  · exact discards

theorem pushCapped_arrives {w w₁ : World π} {s : Stack π} (numbered : Numbered w w₁ s)
    {effect : EffectName} (may : leeway.effects effect) (value : UInt32) :
    Arrives rules nested leeway w (pushCapped effect s value w₁) := by
  unfold pushCapped
  split
  · exact .after numbered.path (discarded_paved s.detach w₁)
  · exact pushStack_arrives (s := { s with value := value }) numbered may

theorem placeStack_arrives {w w₁ : World π} {s : Stack π} (numbered : Numbered w w₁ s)
    {definition : EffectDefinition π} (may : leeway.effects definition.effect) :
    Arrives rules nested leeway w (placeStack nested rules definition s w₁) := by
  unfold placeStack
  split
  · exact .after numbered.path (discarded_paved s.detach w₁)
  · split
    · exact pushStack_arrives numbered may
    · split
      · exact pushCapped_arrives numbered may _
      · rw [entity_bind]
        cases (w₁.entity.effects.get? definition.effect).bind LiveEffect.firstSourceless? with
        | some target => exact .after numbered.path (mergeStack_paved may target s w₁)
        | none => exact pushCapped_arrives numbered may _

omit [CustomTrigger π] in
theorem stackAdded_paved {name : EffectName} {definition : EffectDefinition π}
    (registered : rules.effects.get? name = some definition) :
    Paved rules nested leeway
      (runHook nested (.stackAdded definition.effect) definition.effect definition.onAddStack) := by
  refine runHook_paved (fun script there => ?_) nofun
  rw [← rules.filed name definition registered] at registered
  exact .stackAdded registered there

/-- What follows once a stack has been placed or has not. -/
theorem addStackOf_rest_paved {name : EffectName} {definition : EffectDefinition π}
    (registered : rules.effects.get? name = some definition) (created : Bool) (outcome : Outcome) :
    Paved rules nested leeway (do
      if outcome.isApplied then
        settleStacks nested rules definition.effect
        runHook nested (.stackAdded definition.effect) definition.effect definition.onAddStack
      else if created then removeIfEmpty nested rules definition.effect
      Pure.pure outcome) := by
  split
  · exact (settleStacks_paved definition.effect).bind fun _ =>
      (stackAdded_paved registered).bind fun _ => .pure _
  · split
    · exact (removeIfEmpty_paved definition.effect).bind fun _ => .pure _
    · exact .pure _

theorem addStackOf_paved {name : EffectName} {definition : EffectDefinition π}
    (registered : rules.effects.get? name = some definition)
    (may : leeway.effects definition.effect) (s : Stack π) (source : Option SourceTag) :
    Paved rules nested leeway (addStackOf nested rules definition s source) := by
  refine (ensureLive_paved definition).bind fun created w => ?_
  generalize numbered : ({ s with
    duration := stackDuration definition s.duration
    id := w.entity.nextHandle } : Stack π).attach (rules.readings w.entity.takeHandle.2) source = s'
  have new : s'.id = w.entity.nextHandle := by
    rw [← numbered]
    exact Stack.attach_id _ _ _
  have placed : Arrives rules nested leeway w (placeStack nested rules definition s' { w with
      entity := w.entity.takeHandle.2
      trace := .consulted w.entity.takeHandle.2 :: w.trace }) :=
    placeStack_arrives ⟨new, rfl⟩ may
  rw [← numbered] at placed
  exact .update (.consult (.bind placed fun outcome => addStackOf_rest_paved registered created outcome))

theorem addStack_paved {effect : EffectName} (may : leeway.effects effect) (s : Stack π)
    (source : Option SourceTag) : Paved rules nested leeway (addStack nested rules effect s source) := by
  unfold addStack
  cases registered : rules.effects.get? effect with
  | none => exact (releaseStack_paved s).bind fun _ => .pure _
  | some definition =>
      rw [← rules.filed effect definition registered] at may
      exact .bind (addStackOf_paved registered may s source) fun _ => .pure _

theorem replaceStack_paved {effect : EffectName} (may : leeway.effects effect) (s : Stack π)
    (source : Option SourceTag) :
    Paved rules nested leeway (replaceStack nested rules effect s source) := by
  have adds : Paved rules nested leeway (addStack nested rules effect s source) :=
    addStack_paved may s source
  unfold replaceStack
  split
  · cases source with
    | none => exact adds
    | some tag => exact (removeStacksOf_paved may tag).bind fun _ => adds
  · exact (releaseStack_paved s).bind fun _ => .pure _

theorem addModifier_paved (m : Modifier π) (may : leeway.effects m.stat) (source : Option SourceTag) :
    Paved rules nested leeway (addModifier nested rules m source) := by
  unfold addModifier
  cases registered : rules.effects.get? m.stat with
  | none => exact insertModifier_paved m source
  | some definition =>
      rw [← rules.filed m.stat definition registered] at may
      refine acquireStack_paved.bind fun blank => (releaseModifier_paved m).bind fun _ => ?_
      exact addStackOf_paved registered may _ source

/-! ### Events -/

theorem stimulate_paved (owner : Owner) (stimulus : Stimulus) :
    Paved rules nested leeway (stimulate rules owner stimulus) := by
  refine (updateCondition_paved owner _).bind fun result => ?_
  cases result with
  | none => exact .pure false
  | some changed => exact .bind (.record (fun _ => rfl) fun _ => rfl) fun _ => .pure _

theorem customStimulated_paved (effect : EffectName) (serial : Handle) (index : Nat) :
    Paved rules nested leeway (customStimulated nested rules effect serial index) := by
  refine .bind .entity fun e => ?_
  cases e.condition (.custom effect serial index) with
  | absent => exact .pure ()
  | node head next alternative =>
      have restarts : Paved rules nested leeway (do
          if head.restartsOnMet then
            let _ ← stimulate rules (.custom effect serial index) .restart) := by
        split
        · exact (stimulate_paved _ .restart).bind fun _ => .pure ()
        · exact .pure ()
      dsimp only
      split
      · cases registered : (rules.effects.get? effect).bind fun d => d.customEffects[index]? with
        | none => exact restarts
        | some custom =>
            obtain ⟨d, known, listed⟩ := Option.bind_eq_some_iff.1 registered
            exact .bind (.request (.run (.custom known listed) (.inr nofun))) fun _ => restarts
      · exact restarts

theorem expose_paved (owner : Owner) (stimulus : Stimulus) :
    Paved rules nested leeway (expose nested rules owner stimulus) := by
  refine (stimulate_paved owner stimulus).bind fun changed => ?_
  split
  · cases owner with
    | modifier stat id => exact modifierStimulated_paved stat id
    | stack effect id => exact stackStimulated_paved effect id
    | custom effect serial index => exact customStimulated_paved effect serial index
  · exact .pure ()

/-- The owners that watch a stat look at it again. -/
theorem observe_paved (stat : StatName) : Paved rules nested leeway (do
    (← Act.entity).watchers.get stat |>.forM fun owner => do
      if owner ∈ (← Act.entity).watchers.get stat then
        expose nested rules owner (.stat stat)) := by
  refine .bind .entity fun _ => .forM _ fun owner => .bind .entity fun e => ?_
  split
  · exact expose_paved owner _
  · exact .pure ()

theorem takeTurn_paved (delta : Float32) (index : Nat) :
    Paved rules nested leeway (takeTurn nested rules delta index) := by
  refine .bind .entity fun e => ?_
  dsimp only
  cases e.timers.owners[index]? with
  | none => exact .pure ()
  | some owner =>
      refine .bind (.record (fun _ => rfl) fun _ => rfl) fun _ => ?_
      split
      · exact expose_paved owner _
      · exact .pure ()

theorem passTime_paved (delta : Float32) :
    Paved rules nested leeway (passTime nested rules delta) := by
  refine .bind (.record (fun _ => rfl) fun _ => rfl) fun _ => .bind .entity fun e => ?_
  dsimp only
  refine .bind (.modifyEntity fun _ => .of_same (fun tidy => { tidy with }) rfl rfl) fun _ => ?_
  refine .bind (.forM _ (takeTurn_paved delta)) fun _ => ?_
  refine .bind (.modifyEntity fun _ => .of_same (fun tidy => { tidy with }) rfl rfl) fun _ => ?_
  exact .record (fun _ => rfl) fun _ => rfl

/-! ### Calls -/

omit [CustomTrigger π] in
/-- The hook of a stat that was set runs unless it runs already. -/
theorem setStat_paved (sets : leeway.sets) (stat : StatName) (change : StatValue → StatValue) :
    Paved rules nested leeway (setStat nested rules stat change) := by
  have guards (change : List StatName → List StatName) : Paved rules nested leeway
      (modifyEntity fun e : Entity π => { e with modifying := change e.modifying }) :=
    .modifyEntity fun e tidy => ⟨{ tidy with }, .inl sets, fun _ => .inr rfl⟩
  unfold setStat
  refine .bind (.modifyEntity fun e => .of_same (fun tidy => { tidy with }) rfl rfl) fun _ => ?_
  refine (Paved.announce stat).bind fun _ => ?_
  cases registered : rules.modifiedHooks.get? stat with
  | none => exact .pure ()
  | some hook =>
      refine .bind .entity fun e => ?_
      split
      · refine .bind (guards (stat :: ·)) fun _ => ?_
        refine .bind (.request (.run (.modified registered) (.inl sets))) fun _ => ?_
        exact guards (List.filter (· ≠ stat))
      · exact .pure ()

/-- Every call goes a path with the leeway of what it is about. -/
theorem performWith_paved (c : Call π) (may : ∀ effect, c.Concerns effect → leeway.effects effect)
    (sets : c.Sets → leeway.sets) : Paved rules nested leeway (performWith nested rules c) := by
  cases c with
  | setBase stat value => exact setStat_paved (sets trivial) stat fun v => { v with base := value }
  | setCurrent stat value =>
      exact setStat_paved (sets trivial) stat fun v => { v with current := value }
  | acquireModifier => exact acquireModifier_paved
  | acquireStack => exact acquireStack_paved
  | addModifier m source => exact addModifier_paved m (may _ rfl) source
  | removeModifier id => exact removeModifier_paved id
  | removeModifiersOf source => exact removeModifiersOf_paved source
  | copyModifiers other source => exact copyModifiers_paved _
  | addStack effect s source => exact addStack_paved (may _ rfl) s source
  | replaceStack effect s source => exact replaceStack_paved (may _ rfl) s source
  | removeStack effect id => exact fun _ => removeStack_arrives (.inl (may _ rfl))
  | removeStacksOf effect source => exact removeStacksOf_paved (may _ rfl) source
  | reduceStacks effect amount => exact reduceStacks_paved (may _ rfl) amount
  | removeEffect effect => exact removeEffect_paved (may _ rfl)
  | refreshImmunity => exact refreshImmunity_paved
  | passTime delta => exact passTime_paved delta

theorem addParts_paved (may : ∀ effect, leeway.effects effect) (snapshot : Snapshot) (levels : Nat) :
    Paved rules (serve rules levels) leeway (snapshot.addParts rules levels).run := by
  unfold Snapshot.addParts
  refine .bindE (.forME _ fun form => ?_) fun _ => .forME _ fun live => .forME _ fun form => ?_
  · unfold Snapshot.addModifier
    cases form.build rules.conditionTypes with
    | error e => exact .pure _
    | ok m => exact .bindE ((insertModifier_paved m _).bind fun _ => .pure _) fun _ => .pure _
  · unfold Snapshot.addStack
    cases form.build rules.conditionTypes with
    | error e => exact .pure _
    | ok s => exact .bindE (addStack_paved (may _) s _) fun _ => .pure _

end Engine

end StatusEffects
