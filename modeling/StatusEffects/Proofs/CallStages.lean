import StatusEffects.Proofs.QuietChanges
import StatusEffects.Proofs.Sparing

/-!
What a call passes through on its way.

Between two notices the engine makes quiet changes that spare everything, or changes the stacks of one
effect, which lasts until the change is announced. An effect flips when it is settled or taken out, and
its hook starts before its listeners are called. A relation between worlds that follows these stages
is kept by every call, with any hooks and at every number of levels.

The calls that are served are a parameter: what nobody but a call may take out is left in its place
unless there is such a call.
-/

set_option autoImplicit false

namespace StatusEffects

variable {π : Type} [CustomTrigger π]

namespace Engine

open Act

def Gone (effect : EffectName) (live : LiveEffect π) (w : World π) : World π :=
  { w with
    entity := w.entity.dropEffect effect live
    trace := .effectRemoved effect (w.entity.dropEffect effect live) :: w.trace }

def Heard (effect : EffectName) (w : World π) : World π :=
  { w with trace := .effectChanged effect w.entity :: w.trace }

def Returned (c : Call π) (reply : c.Reply) (w : World π) : World π :=
  { w with trace := .called c reply w.entity :: w.trace }

/-- A relation that holds across every stage of the calls that are served, and a weaker one for each
effect that holds until a change of its stacks has been announced. Only the calls that the rules let
hooks make, but that are not served, and the passing of time are left to the relation itself. -/
structure Follows (rules : Rulebook π) (calls : Call π → Prop) (R : World π → World π → Prop)
    (Loose : EffectName → World π → World π → Prop) : Prop where
  steady : Steady R
  loose : ∀ effect, Steady (Loose effect)
  loosen : ∀ {effect w w'}, R w w' → Loose effect w w'
  tighten : ∀ {effect w w'}, Loose effect w w' →
    R w { w' with trace := .stacksChanged effect w'.entity :: w'.trace }
  told : ∀ {w w' : World π} {stats : List StatName} {e : Entity π} {asides : List (Occurrence π)},
    w.entity.Moves rules stats e → (w.entity.Tidy → w.entity.Spares calls e) → Idle asides →
      Told R stats { w with entity := e, trace := asides ++ w.trace } w' → R w w'
  restacked : ∀ {w : World π} {effect : EffectName} {e : Entity π} {asides : List (Occurrence π)},
    w.entity.Moves rules [] e → (w.entity.Tidy → w.entity.Restacks calls effect e) →
      Idle asides → Loose effect w { w with entity := e, trace := asides ++ w.trace }
  flipped : ∀ {w w' : World π} {effect : EffectName} {live : LiveEffect π} {count : UInt32}
    {active : Bool} {asides : List (Occurrence π)}, w.entity.effects.get? effect = some live →
      live.active ≠ active → Idle asides →
        Flipped rules R effect active { w with
          entity := w.entity.storeCount effect count active
          trace := asides ++ w.trace } w' → R w (Heard effect w')
  dropped : ∀ {w : World π} {effect : EffectName} {live : LiveEffect π},
    w.entity.effects.get? effect = some live → (live.held = [] ∨ calls (.removeEffect effect)) →
      live.active = false → R w (Gone effect live w)
  ended : ∀ {w w₁ w₂ : World π} {effect : EffectName} {live : LiveEffect π},
    w.entity.effects.get? effect = some live → (live.held = [] ∨ calls (.removeEffect effect)) →
      live.active = true → R (Gone effect live w) w₁ → Flipped rules R effect false w₁ w₂ →
        R w (Heard effect w₂)
  started : ∀ {hook script}, rules.Starts hook script → hook.isFlip = false →
    ∀ w : World π, R w (w.begin hook)
  running : ∀ w hooks, R w { w with running := hooks }
  called : ∀ {hook script}, rules.Starts hook script → ∀ {c : Call π}, script.Makes c → calls c →
    ∀ (reply : c.Reply) w, R w (Returned c reply w)
  uncalled : ∀ {nested : Nested π}, (∀ r, (nested r).Keeps (r.Served rules R)) →
    ∀ {hook script}, rules.Starts hook script → ∀ {c : Call π}, script.Makes c → ¬calls c → ∀ w,
      (performWith nested rules c).Yields w fun reply w' => R w (Returned c reply w')
  passes : ∀ {nested : Nested π}, (∀ r, (nested r).Keeps (r.Served rules R)) →
    (∀ owner, (react nested rules owner).Keeps R) → ∀ delta,
      (passTime nested rules delta).Keeps R

variable {rules : Rulebook π} {calls : Call π → Prop} {R : World π → World π → Prop}
  {Loose : EffectName → World π → World π → Prop} (follows : Follows rules calls R Loose)

namespace Follows

include follows

/-- Moves that concern no stat, with occurrences on the side. -/
theorem moved {w : World π} {e : Entity π} {asides : List (Occurrence π)}
    (moves : w.entity.Moves rules [] e) (spares : w.entity.Tidy → w.entity.Spares calls e)
    (idle : Idle asides) : R w { w with entity := e, trace := asides ++ w.trace } :=
  follows.told moves spares idle rfl

theorem quiet {w : World π} {e : Entity π} (moves : w.entity.Moves rules [] e)
    (spares : w.entity.Tidy → w.entity.Spares calls e) : R w { w with entity := e } :=
  follows.moved moves spares .nil

theorem record {mark : Entity π → Occurrence π} (idle : ∀ e, (mark e).isIdle = true) :
    (Act.record mark).Keeps R := by
  intro w
  rw [yields_record]
  exact follows.moved .refl (fun _ => .refl _) (.cons (idle w.entity) .nil)

/-- A change that touches neither modifiers nor effects. -/
theorem updateEntity {α : Type} {change : Entity π → α × Entity π}
    (moves : ∀ e : Entity π, e.Moves rules [] (change e).2)
    (modifiers : ∀ e, (change e).2.modifiers = e.modifiers)
    (effects : ∀ e, (change e).2.effects = e.effects) : (Act.updateEntity change).Keeps R := by
  intro w
  rw [yields_updateEntity]
  exact follows.quiet (moves w.entity) fun _ => .of_same (modifiers w.entity) (effects w.entity)

theorem modifyEntity {change : Entity π → Entity π} (moves : ∀ e : Entity π, e.Moves rules [] (change e))
    (modifiers : ∀ e, (change e).modifiers = e.modifiers)
    (effects : ∀ e, (change e).effects = e.effects) : (Act.modifyEntity change).Keeps R := by
  intro w
  rw [yields_modifyEntity]
  exact follows.quiet (moves w.entity) fun _ => .of_same (modifiers w.entity) (effects w.entity)

/-- Moves that change the stacks of one effect, of which nothing is told yet. -/
theorem rearranged {w : World π} {effect : EffectName} {e : Entity π}
    (moves : w.entity.Moves rules [] e) (restacks : w.entity.Tidy → w.entity.Restacks calls effect e) :
    Loose effect w { w with entity := e } :=
  follows.restacked moves restacks .nil

/-- Moves that concern one stat and its announcement. -/
theorem announced {w w' : World π} {stat : StatName} {e : Entity π}
    {asides : List (Occurrence π)} (moves : w.entity.Moves rules [stat] e)
    (spares : w.entity.Tidy → w.entity.Spares calls e) (idle : Idle asides)
    (served : (Request.announce stat).Served rules R
      { w with entity := e, trace := asides ++ w.trace } w') : R w w' :=
  follows.told moves spares idle ⟨w', served, rfl⟩

end Follows

variable {nested : Nested π} (serves : ∀ r, (nested r).Keeps (r.Served rules R))

include follows

/-! ### Modifiers -/

theorem releaseStack_follows (s : Stack π) : (modifyEntity fun e => e.releaseStack s).Keeps R :=
  follows.modifyEntity (fun _ => (Entity.Move.releaseStack s).moves) (fun _ => rfl) fun _ => rfl

theorem acquireStack_follows : (updateEntity (Entity.acquireStack (π := π))).Keeps R :=
  follows.updateEntity (fun _ => Entity.Move.acquireStack.moves) (fun _ => rfl) fun _ => rfl

theorem acquireModifier_follows : (updateEntity (Entity.acquireModifier (π := π))).Keeps R :=
  follows.updateEntity (fun _ => Entity.Move.acquireModifier.moves) (fun _ => rfl) fun _ => rfl

include serves

theorem removeModifierAt_follows {stat : StatName} {id : Handle}
    (cause : ∀ m : Modifier π, m.id = id → ¬m.Spared calls) :
    (removeModifierAt nested stat id).Keeps R := by
  refine fun w => removeModifierAt_cases (fun _ => follows.steady.refl w) fun _ e _ dropped => ?_
  refine (serves (.announce stat) _).mono fun _ w' served => ?_
  refine follows.announced (Entity.Move.dropModifier dropped).moves (fun _ => ?_) .nil served
  exact .dropModifier dropped fun m found => cause m (Entity.mem_of_find found).2

theorem removeModifiersOf_follows {source : SourceTag}
    (cause : ∀ m : Modifier π, m.source = some source → ¬m.Spared calls) :
    (removeModifiersOf nested source).Keeps R := by
  refine fun w => removeModifiersOf_cases (fun _ => follows.steady.refl w) fun stats listed => ?_
  have owed (m : Modifier π) (member : m ∈ w.entity.modifiers.ofSource (some source)) :
      m.stat ∈ stats := (listed m.stat).2 ⟨m, member, rfl⟩
  -- What is still to be announced completes the step, whatever the world is by then.
  refine (yields_forM (fun rest w₁ => ∀ w', Told R rest w₁ w' → R w w')
    (fun stat rest w₁ before => ?_) stats _ fun w' told => ?_).mono fun _ w' done => done w' rfl
  · refine (serves (.announce stat) w₁).mono fun _ w₂ served w' told => ?_
    exact before w' ⟨w₂, served, told⟩
  · exact follows.told (Entity.Move.dropModifiersOf owed).moves
      (fun _ => .dropModifiersOf cause) .nil told

theorem insertModifier_follows (m : Modifier π) (source : Option SourceTag) :
    (insertModifier nested rules m source).Keeps R := by
  intro w
  have idle : Idle [Occurrence.consulted w.entity.takeHandle.2] := .cons rfl .nil
  refine insertModifier_cases (fun m' _ _ _ => ?_) fun m' _ new _ => ?_
  · exact follows.moved (Entity.Move.takeHandle.moves.then (.releaseModifier m'.detach))
      (fun _ => .of_same rfl rfl) idle
  · refine (serves (.announce m'.stat) _).mono fun _ w' served => ?_
    refine follows.announced (Entity.Move.addModifier new).moves (fun _ => ?_) idle served
    have numbered : w.entity.Spares calls w.entity.takeHandle.2 := .of_same rfl rfl
    exact numbered.trans (.addModifier _ rules.operators m')

theorem copyModifiers_follows (modifiers : List (Modifier π)) :
    (copyModifiers nested rules modifiers).Keeps R :=
  copyModifiers_keeps follows.steady modifiers fun _ _ =>
    follows.steady.bind (acquireModifier_follows follows) fun _ =>
      insertModifier_follows follows serves _ _

theorem modifierStimulated_follows (stat : StatName) (id : Handle) :
    (modifierStimulated nested stat id).Keeps R := by
  intro w
  have updated {m : Modifier π} (found : w.entity.modifiers.find? stat id = some m) :
      w.entity.Moves rules [stat] (w.entity.updateModifier stat id m.refresh.1) :=
    (Entity.Move.updateModifier found fun _ => List.mem_singleton_self stat).moves
  refine modifierStimulated_cases (fun _ => follows.steady.refl w) (fun _ _ _ => follows.steady.refl w)
    (fun m e found _ unowned there dropped => ?goes) fun m found _ => ?flips
  case goes =>
    refine (serves (.announce stat) _).mono fun _ w' served => ?_
    refine follows.announced ((updated found).then (.dropModifier dropped)) (fun _ => ?_) .nil served
    refine .trans (.updateModifier found) (.dropModifier dropped fun other same spared => ?_)
    rw [there] at same
    cases same
    rw [spared.isSourced] at unowned
    cases unowned
  case flips =>
    refine (serves (.announce stat) _).mono fun _ w' served => ?_
    exact follows.announced (updated found) (fun _ => .updateModifier found) .nil served

/-! ### Effects that flip and go -/

/-- A hook runs that does not belong to a flip. -/
theorem ran_follows {hook : Hook} {script : Script π Unit} (starts : rules.Starts hook script)
    (other : hook.isFlip = false) : (nested (.run hook script)).Keeps R := by
  intro w
  refine (serves (.run hook script) w).mono fun _ w' ran => ?_
  exact follows.steady.trans (follows.started starts other w) (ran starts)

omit [CustomTrigger π] follows in
/-- The hook for a flip runs, and then the listeners are called. -/
theorem announceFlip_flips (effect : EffectName) (active : Bool) (w : World π) :
    (announceFlip nested rules effect active).Yields w fun _ w' =>
      ∃ w₁, Flipped rules R effect active w w₁ ∧ w' = Heard effect w₁ := by
  rw [announceFlip_eq, yields_bind]
  unfold runHook Flipped
  cases there : rules.flipScript? effect active with
  | none =>
      rw [yields_pure]
      exact (yields_record ..).2 ⟨w, rfl, rfl⟩
  | some script =>
      refine (serves _ w).mono fun _ w₁ ran => ?_
      exact (yields_record ..).2 ⟨w₁, ran (.ofFlip there), rfl⟩

theorem removeLive_follows {effect : EffectName} {w : World π}
    (cause : ∀ live, w.entity.effects.get? effect = some live →
      live.held = [] ∨ calls (.removeEffect effect)) :
    (removeLive nested rules effect).Yields w fun _ w' => R w w' := by
  refine removeLive_cases (fun _ => follows.steady.refl w) fun live found => ?_
  have applied (m : Modifier π) (source : m.source = some (SourceTag.ofEffect effect)) :
      ¬m.Spared calls := fun spared => spared.not_ofEffect source
  refine (removeModifiersOf_follows follows serves applied (Gone effect live w)).mono
    fun _ w₁ removed => ⟨fun inactive => ?_, fun active => ?_⟩
  · exact follows.steady.trans (follows.dropped found (cause live found) inactive) removed
  · refine (announceFlip_flips serves effect false w₁).mono fun _ w' flips => ?_
    obtain ⟨w₂, flipped, rfl⟩ := flips
    exact follows.ended found (cause live found) active removed flipped

theorem removeIfEmpty_follows (effect : EffectName) :
    (removeIfEmpty nested rules effect).Keeps R := by
  refine fun w => removeIfEmpty_cases (fun _ => follows.steady.refl w) fun live found empty => ?_
  refine removeLive_follows follows serves fun other there => .inl ?_
  rw [found] at there
  cases there
  exact empty

omit serves in
theorem drain_follows (effect : EffectName) : (drain effect).Keeps R := by
  refine fun w => drain_cases (fun _ => follows.steady.refl w) fun live found => ?_
  refine follows.tighten
    (follows.rearranged (Entity.Moves.refl.detachStacks effect _) fun tidy => ?_)
  refine .detachStacks tidy fun s member listed spared => ?_
  rw [Entity.held_of_found found] at member
  obtain ⟨other, there, same⟩ := List.mem_map.1 listed
  obtain ⟨present, unowned⟩ := List.mem_filter.1 there
  cases (tidy.effects _ _ found).unique present member same
  simp [spared.isSourced] at unowned

theorem renewModifiers_follows (definition : EffectDefinition π) (active : Bool)
    (count : UInt32) : (renewModifiers nested rules definition active count).Keeps R := by
  have steady := follows.steady
  refine renewModifiers_keeps steady (follows.record fun _ => rfl)
    (removeModifiersOf_follows follows serves fun m source spared => spared.not_ofEffect source)
    (fun template count => ?_) (follows.record fun _ => rfl) active count
  refine steady.bind (acquireModifier_follows follows) fun blank => ?_
  refine steady.bind (follows.record fun _ => rfl) fun _ => ?_
  exact steady.bind (insertModifier_follows follows serves _ _) fun _ => steady.pure ()

/-! ### Settling -/

theorem settle_follows (effect : EffectName) : (settle nested rules effect).Keeps R := by
  have rest := settleRest_keeps follows.steady
    (fun definition _ => renewModifiers_follows follows serves definition)
    (drain_follows follows effect) (removeIfEmpty_follows follows serves effect)
  intro w
  rw [settle, yields_bind]
  refine (recount_stores effect w).mono fun found w₁ stored => ?_
  cases found with
  | none =>
      obtain ⟨rfl, -⟩ := stored
      rw [yields_pure]
      exact follows.steady.refl w₁
  | some v =>
      obtain ⟨live, lives, -, -, parts, rfl⟩ := stored
      have flips : v.flipped = (live.active != v.active) := congrArg Verdict.flipped parts
      have idle : Idle [Occurrence.consulted w.entity] := .cons rfl .nil
      rw [yields_bind]
      unfold settleFlip
      refine Yields.mono (yields_ite (fun flipped => ?_) fun still => ?_)
        fun still w₂ before => follows.steady.yields before (rest v still)
      · rw [yields_bind]
        refine (announceFlip_flips serves effect v.active _).mono fun _ w₂ flip => ?_
        obtain ⟨w₃, ran, rfl⟩ := flip
        rw [yields_bind, yields_entity, yields_pure]
        rw [flips] at flipped
        exact follows.flipped lives (bne_iff_ne.1 flipped) idle ran
      · have same : v.active = live.active := by
          rw [flips] at still
          simpa using Eq.symm (by simpa using still)
        rw [yields_pure]
        refine follows.moved (Entity.Move.moves ?_) (fun _ => ?_) idle
        · exact .storeCount lives v.count v.active fun changes => absurd same.symm changes
        · rw [same]
          exact .storeCount lives v.count

/-- A change of stacks is announced and settled. -/
theorem settleStacks_tightens {effect : EffectName} {w w₁ : World π} (pending : Loose effect w w₁) :
    (settleStacks nested rules effect).Yields w₁ fun _ w' => R w w' := by
  rw [settleStacks, announceStacks, yields_bind, yields_record]
  exact follows.steady.yields (follows.tighten pending) (settle_follows follows serves effect)

/-! ### Stacks that go -/

/-- A stack that is taken out for a cause is announced and settled. -/
theorem detached_tightens {effect : EffectName} {id : Handle} {w w₁ : World π} {e : Entity π}
    (pending : Loose effect w w₁) {s : Stack π} (there : w₁.entity.stack? effect id = some s)
    (cause : ¬s.Spared calls effect) (detached : w₁.entity.detachStack? effect id = some e) :
    (settleStacks nested rules effect).Yields { w₁ with entity := e } fun _ w' => R w w' := by
  refine settleStacks_tightens follows serves ((follows.loose effect).trans pending ?_)
  refine follows.rearranged (Entity.Move.detachStack detached).moves fun _ => ?_
  refine .detachStack detached fun other found => ?_
  rw [there] at found
  cases found
  exact cause

theorem removeStack_follows {effect : EffectName} {id : Handle}
    (cause : ∀ s : Stack π, s.id = id → ¬s.Spared calls effect) :
    (removeStack nested rules effect id).Keeps R := by
  refine fun w => removeStack_cases (fun _ => follows.steady.refl w) fun s e there detached => ?_
  obtain ⟨live, -, found⟩ := Option.bind_eq_some_iff.1 there
  exact detached_tightens follows serves ((follows.loose effect).refl w) there
    (cause s (LiveEffect.id_of_stack? found)) detached

theorem removeStacksOf_follows {effect : EffectName} {source : SourceTag}
    (cause : ∀ s : Stack π, s.source = some source → ¬s.Spared calls effect) :
    (removeStacksOf nested rules effect source).Keeps R := by
  refine fun w => removeStacksOf_cases (fun _ => follows.steady.refl w) fun live found _ => ?_
  refine settleStacks_tightens follows serves
    (follows.rearranged (Entity.Moves.refl.detachStacks effect _) fun tidy => ?_)
  refine .detachStacks tidy fun s member listed => ?_
  rw [Entity.held_of_found found] at member
  obtain ⟨other, there, same⟩ := List.mem_map.1 listed
  obtain ⟨present, owner⟩ := List.mem_filter.1 there
  cases (tidy.effects _ _ found).unique present member same
  exact cause _ (of_decide_eq_true owner)

theorem reduceStacks_follows (effect : EffectName) (amount : UInt32) :
    (reduceStacks nested rules effect amount).Keeps R := by
  refine fun w => reduceStacks_cases (follows.steady.refl w)
    fun live held left emptied found taken => ?_
  have drawn := drawDown_reverse taken
  refine settleStacks_tightens follows serves (follows.rearranged
    ((Entity.Move.setStacks found drawn).moves.detachStacks effect emptied) fun tidy => ?_)
  have kept (s : Stack π) (member : s ∈ live.held) (sourced : s.isSourced = true) :
      s ∈ held.reverse := by
    have still := drawDown_sourced amount _ (List.mem_reverse.2 member) sourced
    rw [taken] at still
    exact List.mem_reverse.2 still
  have whole : (w.entity.setStacks effect held.reverse).Tidy := tidy.setDrawn found drawn
  refine .trans (.setStacks found kept) (.detachStacks whole fun s member listed spared => ?_)
  rw [Entity.held_setStacks found] at member
  obtain ⟨old, before, rest, -⟩ := Stack.Drawn.mem drawn member
  -- Only stacks without a source come to zero, and a stack keeps its source while it is drawn from.
  obtain ⟨other, present, same, unowned⟩ := drawDown_unowned amount live.held.reverse
    (by rw [taken]; exact listed)
  have handle : other.id = old.id := by
    rw [same, rest]
  cases (tidy.effects _ _ found).unique (List.mem_reverse.1 present) before handle
  have owner : s.isSourced = old.isSourced := by
    rw [rest]
    rfl
  rw [spared.isSourced, unowned] at owner
  cases owner

theorem stackFlipped_tightens {effect : EffectName} {id : Handle} {w w₁ : World π}
    (pending : Loose effect w w₁) {s : Stack π} (there : w₁.entity.stack? effect id = some s) :
    (stackFlipped nested rules effect id).Yields w₁ fun _ w' => R w w' := by
  refine stackFlipped_cases (fun absent => ?_) (fun s e there _ unowned detached => ?_)
    fun _ _ _ => settleStacks_tightens follows serves pending
  · rw [there] at absent
    cases absent
  · refine detached_tightens follows serves pending there (fun spared => ?_) detached
    rw [spared.isSourced] at unowned
    cases unowned

theorem stackStimulated_follows (effect : EffectName) (id : Handle) :
    (stackStimulated nested rules effect id).Keeps R := by
  intro w
  have updated {s : Stack π} (found : w.entity.stack? effect id = some s) :
      w.entity.Moves rules [] (w.entity.updateStack effect id s.refresh.1) :=
    (Entity.Move.updateStack found s.value).moves
  refine stackStimulated_cases (fun _ => follows.steady.refl w) (fun _ _ _ _ => follows.steady.refl w)
    fun s found handle => ?_
  have restacks : w.entity.Restacks calls effect (w.entity.updateStack effect id
      ({ s with value := s.value } : Stack π).refresh.1) := .updateStack found fun _ => rfl
  exact stackFlipped_tightens follows serves
    (follows.rearranged (updated found) fun _ => restacks) (Entity.stack?_updateStack found handle)

/-! ### Trees that look again -/

omit serves in
theorem stimulate_follows (owner : Owner) {stimulus : Stimulus}
    (other : ∀ delta, stimulus ≠ .time delta) : (stimulate rules owner stimulus).Keeps R := by
  refine fun w => (stimulate_stores owner stimulus w).mono fun changed w' stored => ?_
  rcases stored with ⟨-, -, rfl⟩ | ⟨there, r, e, rfl, rfl⟩
  · exact follows.steady.refl w'
  · refine follows.moved (Entity.Move.stimulate owner stimulus r there).moves
      (fun _ => .stimulate _ owner stimulus r) (.cons ?_ (.cons rfl .nil))
    cases stimulus with
    | time delta => exact absurd rfl (other delta)
    | stat name => rfl
    | restart => rfl

omit follows serves in
/-- Time passes by walks, and by trees that hear of it and spare everything, if what follows from
that is kept. -/
theorem passTime_paces (steady : Steady R)
    (paces : ∀ {w : World π} {e : Entity π} {happened : List (Occurrence π)},
      w.entity.Moves rules [] e → (∀ calls, w.entity.Spares calls e) →
      (∀ o ∈ happened, o.isIdle = true ∨ o.isOfTime = true) →
        R w { w with entity := e, trace := happened ++ w.trace })
    (walks : ∀ change : Timers → Timers, change = Timers.startWalk ∨ change = Timers.endWalk →
      ∀ w, R w { w with entity := { w.entity with timers := change w.entity.timers } })
    (reacts : ∀ owner, (react nested rules owner).Keeps R) (delta : Float32) :
    (passTime nested rules delta).Keeps R := by
  have timeless : Timeless R := by
    intro mark ofTime w
    rw [yields_record]
    have one : ∀ o ∈ [mark w.entity], o.isIdle = true ∨ o.isOfTime = true :=
      List.forall_mem_singleton.2 (.inr (ofTime w.entity).1)
    exact paces .refl (fun _ => .refl _) one
  have ticks (owner : Owner) : (stimulate rules owner (.time delta)).Keeps R := by
    refine fun w => (stimulate_stores owner _ w).mono fun changed w' stored => ?_
    rcases stored with ⟨-, -, rfl⟩ | ⟨there, r, e, rfl, rfl⟩
    · exact steady.refl w'
    · have moved : w.entity.Move rules [] [] _ := .stimulate owner (.time delta) r there
      have both (heard looked : Occurrence π) (ofTime : heard.isOfTime = true)
          (idle : looked.isIdle = true) :
          ∀ o ∈ [heard, looked], o.isIdle = true ∨ o.isOfTime = true :=
        List.forall_mem_cons.2 ⟨.inr ofTime, List.forall_mem_singleton.2 (.inl idle)⟩
      exact paces moved.moves (fun _ => .stimulate _ owner (.time delta) r) (both _ _ rfl rfl)
  exact passTime_keeps steady timeless walks fun owner =>
    expose_keeps steady (ticks owner) (reacts owner)

/-! ### Stacks that come -/

/-- What happens while a stack takes up another one: nothing is told, what has to be spared is spared,
and the stack that takes up the other one belongs to nobody. -/
def MergeReady (rules : Rulebook π) (calls : Call π → Prop) (effect : EffectName) (target : Handle)
    (w w' : World π) : Prop :=
  ∃ e asides, w' = { w with entity := e, trace := asides ++ w.trace } ∧ Idle asides ∧
    w.entity.Moves rules [] e ∧ (w.entity.Tidy → w.entity.Spares calls e ∧
      w.entity.Restacks calls effect e ∧
        ∀ s, e.stack? effect target = some s → s.isSourced = false)

omit follows serves in
/-- What becomes of the duration of a stack that nobody owns when another stack is merged into it. -/
theorem mergeDuration_spares (calls : Call π → Prop) (definition : EffectDefinition π)
    {target : Handle} (incoming : Stack π) (w : World π) (unowned : w.entity.Tidy →
      ∀ s, w.entity.stack? definition.effect target = some s → s.isSourced = false) :
    (mergeDuration rules definition target incoming).Yields w fun _ w' =>
      MergeReady rules calls definition.effect target w w' := by
  refine mergeDuration_cases (fun _ => ?_) fun c there merged => ?_
  · exact ⟨_, [], rfl, .nil, .refl, fun tidy => ⟨.refl _, .refl _, unowned tidy⟩⟩
  · refine ⟨_, [_], rfl, .cons rfl .nil, (Entity.Move.mergeDuration there merged).moves,
      fun tidy => ?_⟩
    have spares : w.entity.Spares calls
        (w.entity.setCondition (.stack definition.effect target) c) := by
      refine .setStackCondition fun s found sourced => ?_
      rw [unowned tidy s found] at sourced
      cases sourced
    have others (name : EffectName) (other : name ≠ definition.effect) : Entity.held
        (w.entity.setCondition (.stack definition.effect target) c) name = w.entity.held name :=
      (Entity.held_modifyEffect _ name).trans (if_neg other)
    refine ⟨spares.trans (.of_same rfl rfl),
      .trans (.of_spares spares others rfl) (.of_same rfl rfl), fun s found => ?_⟩
    obtain ⟨before, there, rfl⟩ := Option.map_eq_some_iff.1
      ((Entity.stack?_setCondition _ _ target c).symm.trans found)
    exact unowned tidy before there

theorem mergeStack_follows (definition : EffectDefinition π) {target : Handle}
    (incoming : Stack π) {w : World π} (unowned : w.entity.Tidy →
      ∀ s, w.entity.stack? definition.effect target = some s → s.isSourced = false) :
    (mergeStack nested rules definition target incoming).Yields w fun outcome w' =>
      Loose definition.effect w w' ∧ (outcome.isApplied = false → R w w') := by
  have pending {w₂ : World π} {s s' : Stack π}
      (before : MergeReady rules calls definition.effect target w w₂)
      (found : w₂.entity.stack? definition.effect target = some s)
      (joined : { s with value := mergedValue definition s.value incoming.value } = s') :
      Loose definition.effect w { w₂ with
        entity := w₂.entity.updateStack definition.effect target s'.refresh.1 } := by
    obtain ⟨e, asides, rfl, idle, moves, spares⟩ := before
    subst joined
    refine follows.restacked (moves.aside (.updateStack found _)) (fun tidy => ?_) idle
    obtain ⟨-, restacks, unowned₁⟩ := spares tidy
    refine restacks.trans (.updateStack found fun sourced => ?_)
    rw [unowned₁ s found] at sourced
    cases sourced
  refine mergeStack_cases (MergeReady rules calls definition.effect target w) ?merges
    (fun w₂ before _ => ?absent) (fun w₂ s s' before found handle joined _ => ?same)
    fun w₂ s s' before found handle joined _ => ?flips
  case merges =>
    refine (mergeDuration_spares calls definition incoming w unowned).mono fun _ w₁ merged => ?_
    obtain ⟨e, asides, rfl, idle, moves, spares⟩ := merged
    refine ⟨_, asides, rfl, idle, moves.aside (.releaseStack incoming.detach), fun tidy => ?_⟩
    obtain ⟨keeps, restacks, unowned₁⟩ := spares tidy
    exact ⟨keeps.trans (.of_same rfl rfl), restacks.trans (.of_same rfl rfl), unowned₁⟩
  case absent =>
    obtain ⟨e, asides, rfl, idle, moves, spares⟩ := before
    have step := follows.moved moves (fun tidy => (spares tidy).1) idle
    exact ⟨follows.loosen step, fun _ => step⟩
  case same => exact ⟨pending before found joined, fun refused => Bool.noConfusion refused⟩
  case flips =>
    have there : ({ w₂ with entity := w₂.entity.updateStack definition.effect target s'.refresh.1 } :
        World π).entity.stack? definition.effect target = some s'.refresh.1 := by
      refine Entity.stack?_updateStack found ?_
      subst joined
      exact handle
    exact (stackFlipped_tightens follows serves (pending before found joined) there).mono
      fun _ w' settled => ⟨follows.loosen settled, fun refused => Bool.noConfusion refused⟩

omit serves in
theorem ensureLive_follows {name : EffectName} {definition : EffectDefinition π}
    (registered : rules.effects.get? name = some definition) :
    (ensureLive rules definition).Keeps R := by
  refine fun w => ensureLive_cases (fun _ => follows.steady.refl w) fun absent => ?_
  exact follows.moved (Entity.Move.addEffect registered absent _).moves
    (fun tidy => .addEffect tidy absent _) (.cons rfl .nil)

def Numbered (w w₁ : World π) (s : Stack π) : Prop :=
  s.id = w.entity.nextHandle ∧
    w₁ = { w with
      entity := w.entity.takeHandle.2
      trace := .consulted w.entity.takeHandle.2 :: w.trace }

omit serves in
theorem Numbered.step {w w₁ : World π} {s : Stack π} (numbered : Numbered w w₁ s) : R w w₁ := by
  obtain ⟨-, rfl⟩ := numbered
  exact follows.moved Entity.Move.takeHandle.moves (fun _ => .of_same rfl rfl) (.cons rfl .nil)

omit serves in
/-- A stack that is not placed waits in the pool. -/
theorem discarded_follows {w w₁ : World π} (step : R w w₁) (s : Stack π) (effect : EffectName) :
    Loose effect w { w₁ with entity := w₁.entity.releaseStack s } ∧
      (Outcome.discarded.isApplied = false → R w { w₁ with entity := w₁.entity.releaseStack s }) := by
  have released := follows.steady.trans step (releaseStack_follows follows s w₁ () _ rfl)
  exact ⟨follows.loosen released, fun _ => released⟩

omit serves in
theorem pushStack_follows {w w₁ : World π} {s : Stack π} (numbered : Numbered w w₁ s)
    {effect : EffectName} (lasts : s.Lasts rules effect) :
    (pushStack effect s).Yields w₁ fun outcome w' =>
      Loose effect w w' ∧ (outcome.isApplied = false → R w w') := by
  have step := numbered.step follows
  obtain ⟨new, rfl⟩ := numbered
  refine pushStack_cases (fun live => ?_) fun _ =>
    discarded_follows follows step s.detach effect
  have pushed : w.entity.Move rules [] [] (w.entity.takeHandle.2.pushStack effect s) :=
    .pushStack live new lasts
  have numbered : w.entity.Restacks calls effect w.entity.takeHandle.2 := .of_same rfl rfl
  exact ⟨follows.restacked pushed.moves (fun _ => numbered.trans (.pushStack _ effect s))
    (.cons rfl (.cons rfl .nil)), fun refused => Bool.noConfusion refused⟩

omit serves in
theorem pushCapped_follows {w w₁ : World π} {s : Stack π} (numbered : Numbered w w₁ s)
    {effect : EffectName} (lasts : s.Lasts rules effect) (value : UInt32) :
    (pushCapped effect s value).Yields w₁ fun outcome w' =>
      Loose effect w w' ∧ (outcome.isApplied = false → R w w') :=
  pushCapped_cases (fun _ => discarded_follows follows (numbered.step follows) s.detach effect)
    fun _ => pushStack_follows follows (s := { s with value := value }) numbered lasts

theorem placeStack_follows {w w₁ : World π} {s : Stack π} (numbered : Numbered w w₁ s)
    {definition : EffectDefinition π} (lasts : s.Lasts rules definition.effect) :
    (placeStack nested rules definition s).Yields w₁ fun outcome w' =>
      Loose definition.effect w w' ∧ (outcome.isApplied = false → R w w') := by
  have step := numbered.step follows
  have capped (value : UInt32) := pushCapped_follows follows numbered lasts value
  refine placeStack_cases (fun _ _ => discarded_follows follows step s.detach definition.effect)
    (fun _ => pushStack_follows follows numbered lasts) (fun _ _ _ => capped _)
    (fun _ _ _ _ => capped _) fun target _ first => ?_
  have unowned (tidy : w₁.entity.Tidy) (s : Stack π)
      (found : w₁.entity.stack? definition.effect target = some s) : s.isSourced = false := by
    obtain ⟨live, there, stack⟩ := Option.bind_eq_some_iff.1 found
    rw [there, Option.bind_some] at first
    obtain ⟨oldest, foremost, same⟩ := Option.map_eq_some_iff.1 first
    have handle : s.id = oldest.id := (LiveEffect.id_of_stack? stack).trans same.symm
    cases (tidy.effects _ _ there).unique (List.mem_of_find?_eq_some stack)
      (List.mem_of_find?_eq_some foremost) handle
    simpa using List.find?_some foremost
  refine (mergeStack_follows follows serves definition s unowned).mono fun outcome w' merged => ?_
  obtain ⟨pending, done⟩ := merged
  exact ⟨(follows.loose _).trans (follows.loosen step) pending,
    fun still => follows.steady.trans step (done still)⟩

omit follows serves in
/-- A stack that comes without a duration gets the one of its effect. -/
theorem lasts_of_stackDuration {name : EffectName} {definition : EffectDefinition π}
    (registered : rules.effects.get? name = some definition) {s : Stack π} {given : Condition π}
    (r : Readings) (source : Option SourceTag) (own : s.duration = stackDuration definition given) :
    (s.attach r source).Lasts rules definition.effect := by
  intro absent d found
  rw [rules.filed name definition registered, registered] at found
  cases found
  have unarmed : stackDuration definition given = .absent := by
    rw [← own]
    unfold Stack.attach at absent
    split at absent
    · exact absent
    · cases duration : s.duration with
      | absent => rfl
      | node head next alternative =>
          change s.duration.arm r = .absent at absent
          rw [duration, Condition.arm] at absent
          split at absent
          · cases absent
          · cases absent
  cases given with
  | absent =>
      cases duration : definition.duration with
      | absent => rfl
      | node head next alternative =>
          rw [stackDuration, duration] at unarmed
          cases unarmed
  | node head next alternative => cases unarmed

theorem addStackOf_follows {name : EffectName} {definition : EffectDefinition π}
    (registered : rules.effects.get? name = some definition) (s : Stack π)
    (source : Option SourceTag) : (addStackOf nested rules definition s source).Keeps R := by
  have steady := follows.steady
  refine fun w => addStackOf_cases (fun _ outcome w₂ =>
      Loose definition.effect w w₂ ∧ (outcome.isApplied = false → R w w₂))
    ?places (fun _ outcome w₂ placed _ => ?settles) (fun _ _ placed refused => placed.2 refused)
    fun _ w₂ placed refused => ?empties
  case places =>
    refine (ensureLive_follows follows registered w).mono fun _ w₁ ensured s' attached handle => ?_
    subst attached
    refine (placeStack_follows follows serves ⟨handle, rfl⟩
      (lasts_of_stackDuration registered _ _ rfl)).mono fun outcome w₂ placed => ?_
    obtain ⟨pending, done⟩ := placed
    exact ⟨(follows.loose _).trans (follows.loosen ensured) pending,
      fun refused => steady.trans ensured (done refused)⟩
  case settles =>
    refine (settleStacks_tightens follows serves placed.1).mono fun _ w₃ settled => ?_
    refine steady.yields settled (runHook_keeps steady fun script there => ?_)
    rw [← rules.filed name definition registered] at registered
    exact ran_follows follows serves (.stackAdded registered there) rfl
  case empties =>
    exact steady.yields (placed.2 refused) (removeIfEmpty_follows follows serves _)

theorem addStack_follows (effect : EffectName) (s : Stack π) (source : Option SourceTag) :
    (addStack nested rules effect s source).Keeps R :=
  addStack_keeps follows.steady effect s source (releaseStack_follows follows s)
    fun _ registered => addStackOf_follows follows serves registered s source

theorem addModifier_follows (m : Modifier π) (source : Option SourceTag) :
    (addModifier nested rules m source).Keeps R := by
  refine fun w => addModifier_cases (insertModifier_follows follows serves m source w)
    fun definition registered _ => ?_
  have waits : w.entity.Moves rules [] (w.entity.acquireStack.2.releaseModifier m) :=
    Entity.Move.acquireStack.moves.then (.releaseModifier m)
  exact follows.steady.yields (follows.quiet waits fun _ => .of_same rfl rfl)
    (addStackOf_follows follows serves registered _ source)

/-! ### Events and calls -/

theorem react_follows (owner : Owner) : (react nested rules owner).Keeps R := by
  cases owner with
  | modifier stat id => exact modifierStimulated_follows follows serves stat id
  | stack effect id => exact stackStimulated_follows follows serves effect id
  | custom effect serial index =>
      exact customStimulated_keeps follows.steady effect serial index
        (fun hook script starts other => ran_follows follows serves starts other)
        (stimulate_follows follows _ nofun)

theorem announceStat_follows (stat : StatName) :
    (announceStat nested rules stat).Keeps ((Request.announce stat).Served rules R) := by
  have steady := follows.steady
  intro w
  rw [announceStat, yields_bind, yields_record, yields_bind, yields_entity]
  refine (steady.forM _ fun owner _ => ?_) _
  refine steady.bind (Keeps.entity steady) fun e => ?_
  split
  · exact expose_keeps steady (stimulate_follows follows owner nofun)
      (react_follows follows serves owner)
  · exact steady.pure ()

theorem setStat_follows (stat : StatName) (change : StatValue → StatValue) :
    (setStat nested rules stat change).Keeps R := by
  refine setStat_keeps follows.steady (fun change w => ?_) (fun w modifying => ?_)
    (fun hook script starts other => ran_follows follows serves starts other) change
  · simp only [yields_bind, yields_modifyEntity]
    refine (serves (.announce stat) _).mono fun _ w' served => ?_
    exact follows.announced (Entity.Move.store stat _).moves (fun _ => .of_same rfl rfl) .nil served
  · exact follows.quiet (Entity.Move.modify modifying).moves fun _ => .of_same rfl rfl

/-- A call that is served may take out what it names. -/
theorem performWith_follows (c : Call π) (licensed : calls c) :
    (performWith nested rules c).Keeps R := by
  have steady := follows.steady
  cases c with
  | setBase stat value => exact setStat_follows follows serves stat fun v => { v with base := value }
  | setCurrent stat value =>
      exact setStat_follows follows serves stat fun v => { v with current := value }
  | acquireModifier => exact acquireModifier_follows follows
  | acquireStack => exact acquireStack_follows follows
  | addModifier m source => exact addModifier_follows follows serves m source
  | removeModifier id =>
      refine removeModifier_keeps steady (fun _ => follows.record fun _ => rfl) fun stat =>
        removeModifierAt_follows follows serves fun m same spared => ?_
      exact spared.untaken (same ▸ licensed)
  | removeModifiersOf source =>
      refine removeModifiersOf_follows follows serves fun m owner spared => ?_
      obtain ⟨other, same, -, untaken⟩ := spared.owned
      rw [owner] at same
      exact untaken (Option.some.inj same ▸ licensed)
  | copyModifiers other source => exact copyModifiers_follows follows serves _
  | addStack effect s source => exact addStack_follows follows serves effect s source
  | replaceStack effect s source =>
      refine replaceStack_keeps steady effect s source (releaseStack_follows follows s)
        (fun tag same => ?_) (addStack_follows follows serves effect s source)
      subst same
      refine removeStacksOf_follows follows serves fun other owner spared => ?_
      obtain ⟨tag', owned, -, untaken⟩ := spared.owned
      rw [owner] at owned
      exact untaken s (Option.some.inj owned ▸ licensed)
  | removeStack effect id =>
      refine removeStack_follows follows serves fun s same spared => ?_
      exact spared.untaken (same ▸ licensed)
  | removeStacksOf effect source =>
      refine removeStacksOf_follows follows serves fun s owner spared => ?_
      obtain ⟨same, owned, untaken, -⟩ := spared.owned
      rw [owner] at owned
      exact untaken (Option.some.inj owned ▸ licensed)
  | reduceStacks effect amount => exact reduceStacks_follows follows serves effect amount
  | removeEffect effect =>
      exact removeEffect_keeps steady fun w =>
        removeLive_follows follows serves fun _ _ => .inr licensed
  | refreshImmunity => exact refreshImmunity_keeps steady (settle_follows follows serves)
  | passTime delta => exact follows.passes serves (react_follows follows serves) delta

/-! ### Scripts and nesting -/

theorem runScript_follows {hook : Hook} {started : Script π Unit}
    (starts : rules.Starts hook started) {α : Type} (script : Script π α)
    (part : ∀ c, script.Makes c → started.Makes c) :
    (runScriptWith nested rules script).Keeps R := by
  have steady := follows.steady
  induction script with
  | done result => exact steady.pure result
  | call c next ih =>
      intro w
      rw [runScriptWith, yields_bind]
      have made : (performWith nested rules c).Yields w fun reply w' => R w (Returned c reply w') := by
        by_cases licensed : calls c
        · refine (performWith_follows follows serves c licensed w).mono fun reply w' performed => ?_
          exact steady.trans performed (follows.called starts (part c .here) licensed reply w')
        · exact follows.uncalled serves starts (part c .here) licensed w
      refine made.mono fun reply w₁ before => ?_
      rw [yields_bind, yields_record]
      exact steady.yields before (ih reply fun other made => part other (.called made))
  | look next ih =>
      intro w
      rw [runScriptWith, sight]
      simp only [yields_bind, yields_get, yields_pure]
      exact ih _ (fun other made => part other (.looked made)) w
  | note answer next ih =>
      rw [runScriptWith]
      exact steady.bind (follows.record fun _ => rfl) fun _ =>
        ih fun other made => part other (.noted made)

omit serves in
theorem serve_follows (levels : Nat) (r : Request π) :
    (serve rules levels r).Keeps (r.Served rules R) := by
  refine serve_keeps (fun r => r.Served rules R) (fun nested serves stat => ?_)
    (fun nested serves hook script w => Yields.given fun starts => ?_) levels r
  · exact announceStat_follows follows serves stat
  · have steady := follows.steady
    rw [runHookScript, yields_bind, yields_modify, yields_bind, yields_record]
    refine (steady.bind (runScript_follows follows serves starts script fun _ => id) fun _ => ?_) _
    refine steady.bind (follows.record fun _ => rfl) fun _ w₁ => ?_
    rw [yields_modify]
    exact follows.running w₁ _

omit serves in
theorem perform_follows (levels : Nat) (c : Call π) (licensed : calls c) :
    (perform rules levels c).Keeps R :=
  performWith_follows follows (serve_follows follows levels) c licensed

omit serves in
theorem addParts_follows (levels : Nat) (snapshot : Snapshot) :
    Act.Keeps R (snapshot.addParts rules levels).run :=
  addParts_keeps follows.steady
    (fun form _ m _ =>
      insertModifier_follows follows (serve_follows follows levels) m form.source)
    fun effect form s _ =>
      addStack_follows follows (serve_follows follows levels) effect s form.source

end Engine

/-- What the start of a run has and every stage keeps, every world between calls has. -/
theorem Reached.of_follows {rules : Rulebook π} {licensed : Call π → Prop}
    {R : World π → World π → Prop} {Loose : EffectName → World π → World π → Prop}
    (follows : Engine.Follows rules licensed R Loose) {test : World π → Prop}
    (keeps : ∀ w w', R w w' → test w → test w')
    (start : ∀ values, test (.ofEntity { Entity.new with values := values }))
    {snapshots : Snapshot → Prop} {calls : Entity π → Call π → Prop}
    (made : ∀ e c, calls e c → licensed c) {w : World π} (reached : Reached rules snapshots calls w) :
    test w := by
  induction reached with
  | new => exact start ∅
  | @restored levels snapshot w _ restores =>
      exact keeps _ _ (Engine.addParts_follows follows levels snapshot _ _ _ restores)
        (start snapshot.stats)
  | @called levels w w' c reply _ admitted returns ih =>
      exact keeps _ _ (Engine.perform_follows follows levels c (made _ c admitted) _ _ _ returns) ih

end StatusEffects
