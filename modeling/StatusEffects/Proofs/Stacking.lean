import StatusEffects.Proofs.Settling

/-!
Every call leaves live effects settled, and every stack that joins an effect does so within the cap.

Each way to add or remove stacks changes one effect, which stays within its caps, and then settles
it. Since a nested call finds all counts up to date, the room under a cap that an addition computes
from the count is the true room.
-/

set_option autoImplicit false

namespace StatusEffects

variable {π : Type} {rules : Rulebook π} {w : World π}

/-- A step may leave one effect to be counted and finished. -/
def Loosens (rules : Rulebook π) (effect : EffectName) (w w' : World π) : Prop :=
  Sound rules w → SoundBut rules (· = effect) w' ∧
    ∀ name serial, name ≠ effect → w'.entity.Unfinished name serial →
      w.entity.Unfinished name serial

/-- The stacks of one effect may change within its limit. -/
theorem Loosens.modify {effect : EffectName} {live : LiveEffect π} {e : Entity π}
    (found : w.entity.effects.get? effect = some live) (change : LiveEffect π → LiveEffect π)
    (tidy : w.entity.Tidy → e.Tidy)
    (modified : w.entity.Tidy → e.effects = w.entity.effects.modify effect change)
    (stocked : Sound rules w → ∀ d, rules.effects.get? effect = some d → live.Stocked d →
      (change live).Stocked d)
    (sourced : (change live).Sourced → live.Sourced) :
    Loosens rules effect w { w with entity := e } := by
  intro sound
  have only := Entity.OnlyAt.modify found (modified sound.tidy)
  obtain ⟨d, registered, before⟩ := sound.stocked effect live found
  refine ⟨sound.put (tidy sound.tidy) only (fun _ _ never => never.elim)
    ⟨d, registered, stocked sound d registered before⟩
    (fun source => sound.sourced effect live found (sourced source)) ?_,
    fun _ _ other => only.unfinished other⟩
  exact fun fresh => absurd rfl fresh

theorem Loosens.closes {effect : EffectName} {w₁ w' : World π} (loosens : Loosens rules effect w w₁)
    (closes : Closes rules effect w₁ w') : Orderly rules w w' := by
  intro sound
  obtain ⟨sound₁, fewer₁⟩ := loosens sound
  obtain ⟨sound', fewer'⟩ := closes sound₁
  refine ⟨sound', fun name serial unfinished => ?_⟩
  obtain ⟨other, before⟩ := fewer' name serial unfinished
  exact fewer₁ name serial other before

theorem Orderly.loosens {effect : EffectName} {w' : World π} (orderly : Orderly rules w w') :
    Loosens rules effect w w' := by
  intro sound
  obtain ⟨sound', fewer⟩ := orderly sound
  exact ⟨sound'.mono fun _ never => never.elim, fun name serial _ => fewer name serial⟩

def Opens (rules : Rulebook π) (effect : EffectName) (w w' : World π) : Prop :=
  Sound rules w → Sound rules w' ∧
    ∀ name serial, name ≠ effect → w'.entity.Unfinished name serial →
      w.entity.Unfinished name serial

theorem Orderly.opens {effect : EffectName} {w' : World π} (orderly : Orderly rules w w') :
    Opens rules effect w w' :=
  fun sound => ⟨(orderly sound).1, fun name serial _ => (orderly sound).2 name serial⟩

theorem Opens.trans {effect : EffectName} {w₁ w' : World π} (first : Opens rules effect w w₁)
    (second : Opens rules effect w₁ w') : Opens rules effect w w' := by
  intro sound
  obtain ⟨sound₁, fewer₁⟩ := first sound
  obtain ⟨sound', fewer'⟩ := second sound₁
  exact ⟨sound', fun name serial other unfinished =>
    fewer₁ name serial other (fewer' name serial other unfinished)⟩

theorem Opens.loosens {effect : EffectName} {w₁ w' : World π} (first : Opens rules effect w w₁)
    (second : Loosens rules effect w₁ w') : Loosens rules effect w w' := by
  intro sound
  obtain ⟨sound₁, fewer₁⟩ := first sound
  obtain ⟨sound', fewer'⟩ := second sound₁
  exact ⟨sound', fun name serial other unfinished =>
    fewer₁ name serial other (fewer' name serial other unfinished)⟩

theorem Opens.closes {effect : EffectName} {w₁ w' : World π} (first : Opens rules effect w w₁)
    (closes : Closes rules effect w₁ w') : Orderly rules w w' := by
  refine Loosens.closes (fun sound => ?_) closes
  obtain ⟨sound₁, fewer₁⟩ := first sound
  exact ⟨sound₁.mono fun _ never => never.elim, fewer₁⟩

def Placed (rules : Rulebook π) (effect : EffectName) (w : World π) (outcome : Outcome)
    (w' : World π) : Prop :=
  if outcome.isApplied then Loosens rules effect w w' else Still rules w w'

theorem Placed.loosens {effect : EffectName} {outcome : Outcome} {w' : World π}
    (placed : Placed rules effect w outcome w') (applied : outcome.isApplied = true) :
    Loosens rules effect w w' := by
  rwa [Placed, if_pos applied] at placed

theorem Placed.still {effect : EffectName} {outcome : Outcome} {w' : World π}
    (placed : Placed rules effect w outcome w') (discarded : ¬outcome.isApplied = true) :
    Still rules w w' := by
  rwa [Placed, if_neg discarded] at placed

/-- The oldest stack without a source is found by its handle. -/
theorem Entity.Tidy.oldest {e : Entity π} (tidy : e.Tidy) {effect : EffectName} {id : Handle}
    (first : (e.effects.get? effect).bind LiveEffect.firstSourceless? = some id) :
    ∃ s, e.stack? effect id = some s ∧ s.isSourced = false := by
  obtain ⟨live, found, oldest⟩ := Option.bind_eq_some_iff.1 first
  obtain ⟨s, there, rfl⟩ := Option.map_eq_some_iff.1 oldest
  refine ⟨s, ?_, by simpa using List.find?_some there⟩
  rw [Entity.stack?, found, Option.bind_some]
  exact (tidy.effects _ live found).stack?_of_held (List.mem_of_find?_eq_some there)

namespace Engine

open Act

/-! ### Room under the cap -/

/-- What fits in the room that is left fits within the limit together with what is there. -/
theorem room_le {d : EffectDefinition π} {count value : UInt32}
    (some : min value (d.room count) ≠ 0) :
    (min value (d.room count)).toNat + count.toNat ≤ d.limit := by
  have positive := UInt32.lt_iff_toNat_lt.1 (pos_of_ne_zero some)
  rw [toNat_min, d.toNat_room] at positive ⊢
  change 0 < _ at positive
  omega

theorem clamp_le (d : EffectDefinition π) (value : UInt32) : (d.clamp value).toNat ≤ d.limit := by
  rw [d.toNat_clamp]
  exact Nat.min_le_left ..

theorem mergedValue_pos {d : EffectDefinition π} {existing incoming : UInt32}
    (positive : 0 < existing) : 0 < mergedValue d existing incoming := by
  have most := d.limit_pos
  rw [UInt32.lt_iff_toNat_lt] at positive ⊢
  rw [d.toNat_mergedValue]
  change 0 < existing.toNat at positive
  change 0 < min d.limit (existing.toNat + incoming.toNat)
  omega

/-! ### Stacks that go or change -/

theorem detachStack?_loosens {effect : EffectName} {id : Handle} {e : Entity π}
    (detached : w.entity.detachStack? effect id = some e) :
    Loosens rules effect w { w with entity := e } := by
  obtain ⟨live, s, found, -, -⟩ := Entity.detachStack?_eq_some detached
  exact .modify found (·.without [id]) (fun tidy => tidy.detachStack? detached)
    (fun tidy => tidy.effects_detachStack? detached) (fun _ _ _ stocked => stocked.without [id])
    .of_without

theorem detachStacks_loosens {effect : EffectName} {live : LiveEffect π}
    (found : w.entity.effects.get? effect = some live) (ids : List Handle) :
    Loosens rules effect w { w with entity := (w.entity.detachStacks effect ids).2 } :=
  .modify found (·.without ids) (fun tidy => tidy.detachStacks effect ids)
    (fun tidy => tidy.effects_detachStacks effect ids) (fun _ _ _ stocked => stocked.without ids)
    .of_without

theorem drawStacks_loosens {effect : EffectName} {live : LiveEffect π}
    (found : w.entity.effects.get? effect = some live) {amount left : UInt32}
    {held : List (Stack π)} {emptied : List Handle}
    (taken : drawDown amount live.held.reverse = (held, left, emptied)) :
    Loosens rules effect w { w with entity :=
      ((w.entity.setStacks effect held.reverse).detachStacks effect emptied).2 } := by
  have drawn := drawDown_reverse taken
  have gone := drawDown_emptied amount live.held.reverse
  rw [taken] at gone
  have set (tidy : w.entity.Tidy) : (w.entity.setStacks effect held.reverse).Tidy :=
    tidy.setDrawn found drawn
  refine .modify found (fun live => LiveEffect.without { live with held := held.reverse } emptied)
    (fun tidy => (set tidy).detachStacks effect emptied) (fun tidy => ?_)
    (fun _ d _ stocked => ?_) fun source => .of_drawn drawn source.of_without
  · rw [(set tidy).effects_detachStacks]
    exact Table.modify_modify _ effect
      (fun live : LiveEffect π => { live with held := held.reverse }) _
  · have positive := gone fun s member => stocked.positive s (List.mem_reverse.1 member)
    exact stocked.drawn drawn fun s member => positive s (List.mem_reverse.1 member)

section

variable {effect : EffectName} {id : Handle} {live : LiveEffect π} {s s' : Stack π}
  (found : w.entity.effects.get? effect = some live) (stack : live.stack? id = some s)
  (same : s'.id = id) (sourced : s'.isSourced = s.isSourced)

include found stack same sourced

theorem updateStack_loosens
    (stays : Sound rules w → ∀ d, rules.effects.get? effect = some d → live.Stocked d →
      (live.modifyStack id fun _ => s').Stocked d) :
    Loosens rules effect w { w with entity := w.entity.updateStack effect id s' } :=
  .modify found (·.modifyStack id fun _ => s') (fun tidy => tidy.updateStack effect same)
    (fun _ => rfl) stays (.of_modifyStack stack sourced)

/-- Where a stack goes, it does not matter what it was changed to before. -/
theorem updateStack_detach_loosens {e : Entity π}
    (detached : (w.entity.updateStack effect id s').detachStack? effect id = some e) :
    Loosens rules effect w { w with entity := e } := by
  have keeps (x : Stack π) (_ : decide (x.id = id) = true) : decide (s'.id = id) = true :=
    decide_eq_true same
  have updated (tidy : w.entity.Tidy) := tidy.updateStack effect same
  have goes (tidy : w.entity.Tidy) :
      (live.modifyStack id fun _ => s').without [id] = live.without [id] := by
    have distinct := (tidy.effects effect live found).distinct
    have distinct' : ((modifyFirst (fun s => decide (s.id = id)) (fun _ => s')
        live.held).map Stack.id).Nodup := by
      rw [map_key_modifyFirst fun _ _ => same]
      exact distinct
    have erased := eraseP_modifyFirst keeps live.held
    rw [eraseP_eq_filter_of_nodup distinct', eraseP_eq_filter_of_nodup distinct] at erased
    unfold LiveEffect.without LiveEffect.modifyStack
    simp only [List.mem_singleton]
    rw [erased]
  refine .modify found (fun live => (live.modifyStack id fun _ => s').without [id])
    (fun tidy => (updated tidy).detachStack? detached) (fun tidy => ?_)
    (fun sound _ _ stocked => goes sound.tidy ▸ stocked.without [id])
    fun source => .of_modifyStack stack sourced source.of_without
  rw [(updated tidy).effects_detachStack? detached]
  exact Table.modify_modify _ effect
    (fun live : LiveEffect π => live.modifyStack id fun _ => s') _

end

/-- A stack without a source may take up the value of another one. -/
theorem merged_stocked {d : EffectDefinition π} {live : LiveEffect π} (stocked : live.Stocked d)
    (distinct : (live.held.map Stack.id).Nodup) (joins : d.stacking ≠ .separate) {id : Handle}
    {s s' : Stack π} (found : live.stack? id = some s) (sourceless : s.isSourced = false)
    {incoming : UInt32} (merged : { s with value := mergedValue d s.value incoming } = s')
    (owned : s'.refresh.1.active = false → s'.refresh.1.isSourced = true) :
    (live.modifyStack id fun _ => s'.refresh.1).Stocked d := by
  have source : s'.refresh.1.isSourced = false := by rw [← merged]; exact sourceless
  have active : s'.refresh.1.active = true := by
    rw [← Bool.not_eq_false]
    intro idle
    rw [owned idle] at source
    cases source
  subst merged
  have positive := stocked.positive s (List.mem_of_find?_eq_some found) sourceless
  exact stocked.merge distinct joins found sourceless sourceless active (mergedValue_pos positive)
    (clamp_le ..)

variable {nested : Nested π} (orderly : ∀ r, (nested r).Keeps (Orderly rules))
  [CustomTrigger π]

include orderly

/-! ### Removing stacks -/

theorem removeStack_orderly (effect : EffectName) (id : Handle) :
    (removeStack nested rules effect id).Keeps (Orderly rules) := by
  refine fun w => removeStack_cases (fun _ => (Orderly.steady rules).refl w) fun _ e _ detached => ?_
  exact (settleStacks_closes orderly effect _).mono fun _ w' closes =>
    (detachStack?_loosens detached).closes closes

theorem removeStacksOf_orderly (effect : EffectName) (source : SourceTag) :
    (removeStacksOf nested rules effect source).Keeps (Orderly rules) := by
  refine fun w => removeStacksOf_cases (fun _ => (Orderly.steady rules).refl w) fun live found _ => ?_
  exact (settleStacks_closes orderly effect _).mono fun _ w' closes =>
    (detachStacks_loosens found _).closes closes

theorem reduceStacks_orderly (effect : EffectName) (amount : UInt32) :
    (reduceStacks nested rules effect amount).Keeps (Orderly rules) := by
  refine fun w => reduceStacks_cases ((Orderly.steady rules).refl w)
    fun live held left emptied found taken => ?_
  exact (settleStacks_closes orderly effect _).mono fun _ w' closes =>
    (drawStacks_loosens found taken).closes closes

omit [CustomTrigger π] in
theorem removeLive_orderly (effect : EffectName) :
    (removeLive nested rules effect).Keeps (Orderly rules) :=
  fun w => (removeLive_closes orderly effect w).mono fun _ _ closes => closes.orderly

theorem settle_orderly (effect : EffectName) : (settle nested rules effect).Keeps (Orderly rules) :=
  fun w => (settle_closes orderly effect w).mono fun _ _ closes => closes.orderly

/-! ### Stacks that change -/

/-- A stack that was put in the place of another one either goes or stays within the caps. -/
theorem stackFlipped_orderly {w : World π} {effect : EffectName} {id : Handle}
    {live : LiveEffect π} {s s' : Stack π} (found : w.entity.effects.get? effect = some live)
    (stack : live.stack? id = some s) (same : s'.id = id) (sourced : s'.isSourced = s.isSourced)
    (stays : (s'.active = false → s'.isSourced = true) → Sound rules w →
      ∀ d, rules.effects.get? effect = some d → live.Stocked d →
        (live.modifyStack id fun _ => s').Stocked d) :
    (stackFlipped nested rules effect id).Yields
      { w with entity := w.entity.updateStack effect id s' } fun _ w' => Orderly rules w w' := by
  have present : (w.entity.updateStack effect id s').stack? effect id = some s' := by
    apply Entity.stack?_updateStack (s := s) _ same
    rw [Entity.stack?, found, Option.bind_some, stack]
  refine stackFlipped_cases (fun absent => ?_) (fun _ e _ _ _ detached => ?_) fun t there lasts => ?_
  · rw [present] at absent
    cases absent
  · exact (settleStacks_closes orderly effect _).mono fun _ w' closes =>
      (updateStack_detach_loosens found stack same sourced detached).closes closes
  · rw [present] at there
    cases there
    have owned (idle : s'.active = false) : s'.isSourced = true := by
      rw [← Bool.not_eq_false]
      intro unowned
      rw [lasts unowned] at idle
      cases idle
    exact (settleStacks_closes orderly effect _).mono fun _ w' closes =>
      (updateStack_loosens found stack same sourced (stays owned)).closes closes

theorem stackStimulated_orderly (effect : EffectName) (id : Handle) :
    (stackStimulated nested rules effect id).Keeps (Orderly rules) := by
  have steady := Orderly.steady rules
  refine fun w => stackStimulated_cases (fun _ => steady.refl w) (fun _ _ _ _ => steady.refl w)
    fun s stack same => ?_
  obtain ⟨live, found, there⟩ := Option.bind_eq_some_iff.1 stack
  exact stackFlipped_orderly orderly found there same rfl fun owned sound _ _ stocked =>
    stocked.refresh (sound.tidy.effects effect live found).distinct there owned

/-! ### Adding stacks -/

omit orderly in
theorem mergeDuration_still (definition : EffectDefinition π) (target : Handle)
    (incoming : Stack π) :
    (mergeDuration rules definition target incoming).Keeps (Still rules) := by
  have steady := Still.steady rules
  refine steady.bind (updateCondition_still _ _) fun result => ?_
  cases result with
  | none => exact steady.pure ()
  | some _ =>
      exact .modifyEntity (fun e tidy => tidy.subscribe _ _) fun e => .of_effects rfl

omit orderly [CustomTrigger π] in
theorem releaseStack_still (s : Stack π) :
    (modifyEntity fun e => e.releaseStack s).Keeps (Still rules) :=
  .modifyEntity (fun _ tidy => tidy.releaseStack s) fun _ => .of_effects rfl

theorem mergeStack_placed {definition : EffectDefinition π}
    (registered : rules.effects.get? definition.effect = some definition)
    (joins : definition.stacking ≠ .separate) {w : World π} {target : Handle}
    (first : Sound rules w → ∃ s, w.entity.stack? definition.effect target = some s ∧
      s.isSourced = false) (incoming : Stack π) :
    (mergeStack nested rules definition target incoming).Yields w
      fun outcome w' => Placed rules definition.effect w outcome w' := by
  have sourceless {w₂ : World π} (before : Still rules w w₂) {s : Stack π}
      (stack : w₂.entity.stack? definition.effect target = some s) (sound : Sound rules w) :
      s.isSourced = false := (before sound).2.sourceless (first sound) stack
  have stays {w₂ : World π} (before : Still rules w w₂) {live : LiveEffect π} {s s' : Stack π}
      (found : w₂.entity.effects.get? definition.effect = some live)
      (there : live.stack? target = some s) (unowned : s.isSourced = false) (sound : Sound rules w)
      (joined : { s with value := mergedValue definition s.value incoming.value } = s')
      (owned : s'.refresh.1.active = false → s'.refresh.1.isSourced = true)
      (d : EffectDefinition π) (registered' : rules.effects.get? definition.effect = some d)
      (stocked : live.Stocked d) : (live.modifyStack target fun _ => s'.refresh.1).Stocked d := by
    rw [registered] at registered'
    cases registered'
    have distinct := ((before sound).1.tidy.effects _ live found).distinct
    exact merged_stocked stocked distinct joins there unowned joined owned
  refine mergeStack_cases (Still rules w) ?merges (fun _ before _ => before)
    (fun w₂ s s' before stack same joined unchanged => ?same)
    fun w₂ s s' before stack same joined _ => ?flips
  case merges =>
    refine (mergeDuration_still definition target incoming w).mono fun _ w₁ merged => ?_
    exact (Still.steady rules).trans merged (releaseStack_still incoming.detach w₁ () _ rfl)
  case same =>
    obtain ⟨live, found, there⟩ := Option.bind_eq_some_iff.1 stack
    intro sound
    have unowned := sourceless before stack sound
    have loosens : Loosens rules definition.effect w₂ { w₂ with
        entity := w₂.entity.updateStack definition.effect target s'.refresh.1 } := by
      refine updateStack_loosens found there (by rw [← joined]; exact same)
        (by rw [← joined]; rfl) fun _ d registered' stocked => ?_
      refine stays before found there unowned sound joined (fun idle => ?_) d registered' stocked
      have counts := stocked.counts s (List.mem_of_find?_eq_some there) unowned
      rw [Stack.refresh_eq_self unchanged, ← joined, counts] at idle
      cases idle
    exact before.orderly.opens.loosens loosens sound
  case flips =>
    obtain ⟨live, found, there⟩ := Option.bind_eq_some_iff.1 stack
    intro _ w' ends sound
    have unowned := sourceless before stack sound
    have flipped : Orderly rules w₂ w' := stackFlipped_orderly orderly found there
      (by rw [← joined]; exact same) (by rw [← joined]; rfl)
      (fun owned _ => stays before found there unowned sound joined owned) () w' ends
    exact ((Orderly.steady rules).trans before.orderly flipped).loosens sound

omit orderly [CustomTrigger π] in
theorem released_placed (w : World π) (s : Stack π) {effect : EffectName} :
    Placed rules effect w .discarded { w with entity := w.entity.releaseStack s } :=
  .of_alike (fun tidy => tidy.releaseStack _) (.of_effects rfl)

omit orderly in
/-- A stack that is new to its effect joins it if the effect is live. -/
theorem pushStack_placed {w : World π} {effect : EffectName} {s : Stack π}
    (spare : w.entity.Spare s.id)
    (room : Sound rules w → (Occurrence.stackPushed effect s w.entity).WithinRoom rules)
    (stocked : ∀ d live, rules.effects.get? effect = some d →
      w.entity.effects.get? effect = some live → Sound rules w → live.Stocked d →
      LiveEffect.Stocked d { live with held := live.held ++ [s] }) :
    (pushStack effect s).Yields w fun outcome w' => Placed rules effect w outcome w' := by
  refine pushStack_cases (fun present sound => ?_) fun _ => released_placed w s.detach
  obtain ⟨live, found⟩ := Option.isSome_iff_exists.1 present
  have pushed : (w.entity.pushStack effect s).effects =
      w.entity.effects.modify effect fun live => { live with held := live.held ++ [s] } := rfl
  have only := Entity.OnlyAt.modify found pushed
  obtain ⟨d, registered, before⟩ := sound.stocked effect live found
  have recorded : Sound rules { w with trace := .stackPushed effect s w.entity :: w.trace } :=
    sound.push (capped_of_sees sound (fun _ same => (Option.some.inj same).symm)
      (fun _ never => never.elim) (room sound))
  have source (sourced : LiveEffect.Sourced { live with held := live.held ++ [s] }) :
      World.Sourced { w with trace := .stackPushed effect s w.entity :: w.trace } effect := by
    obtain ⟨other, member, source⟩ := sourced
    rcases List.mem_append.1 member with earlier | last
    · exact (sound.sourced effect live found ⟨other, earlier, source⟩).push _
    · rw [List.mem_singleton.1 last] at source
      exact ⟨s, w.entity, List.mem_cons_self .., source⟩
  refine ⟨recorded.put (sound.tidy.pushStack spare) only (fun _ _ never => never.elim)
    ⟨d, registered, stocked d live registered found sound before⟩ source
    fun fresh => absurd rfl fresh, ?_⟩
  exact fun _ _ other => only.unfinished other

omit orderly in
theorem pushCapped_placed {w : World π} {effect : EffectName} {s : Stack π} {value : UInt32}
    (spare : w.entity.Spare s.id)
    (room : value ≠ 0 → Sound rules w →
      (Occurrence.stackPushed effect { s with value := value } w.entity).WithinRoom rules)
    (stocked : ∀ d live, value ≠ 0 → rules.effects.get? effect = some d →
      w.entity.effects.get? effect = some live → Sound rules w → live.Stocked d →
      LiveEffect.Stocked d { live with held := live.held ++ [{ s with value := value }] }) :
    (pushCapped effect s value).Yields w fun outcome w' => Placed rules effect w outcome w' :=
  pushCapped_cases (fun _ => released_placed w s.detach) fun some =>
    pushStack_placed spare (room some) fun d live => stocked d live some

theorem placeStack_placed {definition : EffectDefinition π}
    (registered : rules.effects.get? definition.effect = some definition) {w : World π}
    {s : Stack π} (spare : w.entity.Spare s.id) :
    (placeStack nested rules definition s).Yields w
      fun outcome w' => Placed rules definition.effect w outcome w' := by
  have same {d : EffectDefinition π} (registered' : rules.effects.get? definition.effect = some d) :
      d = definition := by
    rw [registered] at registered'
    exact (Option.some.inj registered').symm
  refine placeStack_cases (fun _ _ => released_placed w s.detach) (fun sourced => ?sourced)
    (fun sourceless active separate => ?separate)
    (fun sourceless active joins first => ?first) fun target joins first => ?merges
  case sourced =>
    refine pushStack_placed spare (fun _ => ?_) fun d live _ _ _ before => before.pushSourced sourced
    intro d live _ _ _ none
    rw [sourced] at none
    cases none
  case separate =>
    -- The count that the room is computed from is the sum of the active stacks.
    have count {live : LiveEffect π} (sound : Sound rules w)
        (found : w.entity.effects.get? definition.effect = some live) :
        (w.entity.activeCount definition.effect).toNat = live.activeSum := by
      rw [Entity.activeCount, found, Option.map_some, Option.getD_some]
      exact (sound.tallied _ live id found).count
    refine pushCapped_placed spare (fun some sound => ?_) fun d live some registered' found
      sound before => ?_
    · intro d live registered' found _ _
      cases same registered'
      have fits := room_le some
      rw [count sound found] at fits
      exact ⟨pos_of_ne_zero some, (sound.tallied _ live id found).count, fits⟩
    · cases same registered'
      refine before.pushSourceless sourceless active (pos_of_ne_zero some)
        (fun apart => absurd separate apart) ?_
      have fits := room_le some
      have within := before.sourceless_le_activeSum
      rw [count sound found] at fits
      dsimp only
      omega
  case first =>
    refine pushCapped_placed spare (fun _ _ => ?_) fun d live some registered' found _ before => ?_
    · intro d live registered' _ separate _
      cases same registered'
      exact absurd separate joins
    · cases same registered'
      have alone : Stack.sourceless live.held = [] := by
        rw [found, Option.bind_some, LiveEffect.firstSourceless?, Option.map_eq_none_iff,
          List.find?_eq_none] at first
        exact List.filter_eq_nil_iff.2 first
      refine before.pushSourceless sourceless active (pos_of_ne_zero some) (fun _ => alone) ?_
      rw [alone, Stack.total_nil, Nat.zero_add]
      exact clamp_le ..
  case merges =>
    exact mergeStack_placed orderly registered joins (fun sound => sound.tidy.oldest first) s

def Ensured (rules : Rulebook π) (effect : EffectName) (w : World π) (created : Bool)
    (w' : World π) : Prop :=
  Opens rules effect w w' ∧ match created with
    | true => ∃ live, w'.entity.effects.get? effect = some live ∧ (Sound rules w → live.held = [])
    | false => Orderly rules w w'

omit orderly in
theorem ensureLive_yields {definition : EffectDefinition π}
    (registered : rules.effects.get? definition.effect = some definition) (w : World π) :
    (ensureLive rules definition).Yields w fun created w' =>
      Ensured rules definition.effect w created w' := by
  refine ensureLive_cases (fun _ => ?_) fun _ => ?_
  · have stays := (Orderly.steady rules).refl w
    exact ⟨stays.opens, stays⟩
  · generalize (definition.customEffects.map fun custom =>
      custom.condition.pristine.arm (rules.readings w.entity.acquireEffect.2)) = armed
    let live : LiveEffect π := { w.entity.acquireEffect.1 with
      effect := definition.effect
      conditions := w.entity.acquireEffect.1.conditions ++ armed }
    have added := Entity.addEffect_effects w.entity.acquireEffect.2
      { w.entity.acquireEffect.1 with effect := definition.effect } armed
    have only : w.entity.OnlyAt definition.effect live (w.entity.acquireEffect.2.addEffect
        { w.entity.acquireEffect.1 with effect := definition.effect } armed) := by
      intro name
      rw [added, Table.get?_insert]
      rfl
    have empty (sound : Sound rules w) : live.held = [] ∧ live.count = 0 ∧ live.active = false := by
      have blank := sound.tidy.acquireEffect_fst
      exact ⟨congrArg LiveEffect.held blank, congrArg LiveEffect.count blank,
        congrArg LiveEffect.active blank⟩
    refine ⟨fun sound => ⟨?_, fun _ _ other => only.unfinished other⟩, live, only.found,
      fun sound => (empty sound).1⟩
    obtain ⟨held, count, active⟩ := empty sound
    have asked : Sound rules { w with
        trace := .consulted w.entity.acquireEffect.2 :: w.trace } := by
      have acquired : Sound rules { w with entity := w.entity.acquireEffect.2 } :=
        sound.alike sound.tidy.acquireEffect (.of_effects rfl)
      exact sound.push (capped_of_sees acquired (fun _ same => (Option.some.inj same).symm)
        (fun _ never => never.elim) trivial)
    refine asked.put (sound.tidy.addNewEffect _ armed) only (fun _ _ => id)
      ⟨definition, registered, ?_⟩ (fun source => ?_) fun _ => ?_
    · exact
        { counts := fun s member => by rw [held] at member; cases member
          positive := fun s member => by rw [held] at member; cases member
          single := fun _ => by rw [held]; exact Nat.zero_le 1
          limited := by rw [held]; exact Nat.zero_le _ }
    · obtain ⟨s, member, -⟩ := source
      rw [held] at member
      cases member
    · refine ⟨?_, fun yes => ?_, fun immune _ => ?_⟩
      · rw [count, LiveEffect.activeSum_eq, held]
        rfl
      · rw [active] at yes
        cases yes
      · rw [active, count]
        rfl

theorem addStackOf_orderly {definition : EffectDefinition π}
    (registered : rules.effects.get? definition.effect = some definition) (s : Stack π)
    (source : Option SourceTag) :
    (addStackOf nested rules definition s source).Keeps (Orderly rules) := by
  have steady := Orderly.steady rules
  intro w
  refine Yields.given fun sound => ?_
  refine addStackOf_cases (fun created outcome w₂ => ∃ w₁,
      Ensured rules definition.effect w created w₁ ∧ ∃ w₁', Still rules w₁ w₁' ∧
        Placed rules definition.effect w₁' outcome w₂)
    ?places (fun created outcome w₂ placed applied => ?settles)
    (fun outcome w₂ placed discarded => ?stays) fun outcome w₂ placed discarded => ?empties
  case places =>
    refine (ensureLive_yields registered w).mono fun created w₁ ensured s' _ handle => ?_
    have spare : w₁.entity.takeHandle.2.Spare s'.id := by
      rw [handle]
      exact (ensured.1 sound).1.tidy.spare
    exact (placeStack_placed orderly registered spare).mono fun outcome w₂ placed =>
      ⟨w₁, ensured, _, takeHandle_still, placed⟩
  case settles =>
    obtain ⟨w₁, ⟨opens, -⟩, w₁', asked, placed⟩ := placed
    refine (settleStacks_closes orderly _ w₂).mono fun _ w₃ closes => ?_
    refine (runHook_keeps steady (fun _ _ => orderly _) w₃).mono fun _ w' hooked => ?_
    have settled := ((opens.trans asked.orderly.opens).loosens (placed.loosens applied)).closes closes
    exact steady.trans settled hooked sound
  case stays =>
    obtain ⟨w₁, ⟨-, ensured⟩, w₁', asked, placed⟩ := placed
    have rest := (Still.steady rules).trans asked (placed.still (Bool.eq_false_iff.1 discarded))
    exact steady.trans ensured rest.orderly sound
  case empties =>
    obtain ⟨w₁, ⟨opens, live, found, empty⟩, w₁', asked, placed⟩ := placed
    have rest := (Still.steady rules).trans asked (placed.still (Bool.eq_false_iff.1 discarded))
    refine removeIfEmpty_cases (fun filled => ?_) fun _ _ _ => ?_
    · -- Nothing was pushed, so the new effect goes again.
      have outlines := (rest (opens sound).1).2 definition.effect
      rw [found, Option.map_some] at outlines
      obtain ⟨live₂, found₂, same⟩ := Option.map_eq_some_iff.1 outlines
      have held : live₂.held.map Stack.outline = live.held.map Stack.outline :=
        (congrArg LiveEffect.held same :)
      rw [empty sound, List.map_nil, List.map_eq_nil_iff] at held
      exact absurd held (filled live₂ found₂)
    · exact (removeLive_closes orderly _ w₂).mono fun _ w' closes =>
        (opens.trans rest.orderly.opens).closes closes sound

theorem addStack_orderly (effect : EffectName) (s : Stack π) (source : Option SourceTag) :
    (addStack nested rules effect s source).Keeps (Orderly rules) := by
  refine addStack_keeps (Orderly.steady rules) effect s source (.of_still (releaseStack_still s))
    fun definition registered => ?_
  have named := rules.filed effect definition registered
  subst named
  exact addStackOf_orderly orderly registered s source

theorem addModifier_orderly (m : Modifier π) (source : Option SourceTag) :
    (addModifier nested rules m source).Keeps (Orderly rules) := by
  refine fun w => addModifier_cases (insertModifier_orderly orderly m source w)
    fun definition registered named => ?_
  rw [← named] at registered
  have waits : Still rules w { w with entity := w.entity.acquireStack.2.releaseModifier m } :=
    .of_alike (fun tidy => tidy.acquireStack.releaseModifier m) (.of_effects rfl)
  exact (Orderly.steady rules).yields waits.orderly (addStackOf_orderly orderly registered _ source)

/-! ### Events and calls -/

theorem expose_orderly (owner : Owner) (stimulus : Stimulus) :
    (expose nested rules owner stimulus).Keeps (Orderly rules) := by
  have steady := Orderly.steady rules
  refine expose_keeps steady (.of_still (stimulate_still owner stimulus)) ?_
  cases owner with
  | modifier stat id => exact modifierStimulated_orderly orderly stat id
  | stack effect id => exact stackStimulated_orderly orderly effect id
  | custom effect serial index =>
      exact customStimulated_keeps steady effect serial index (fun _ _ _ _ => orderly _)
        (.of_still (stimulate_still _ _))

theorem announceStat_orderly (stat : StatName) :
    (announceStat nested rules stat).Keeps (Orderly rules) :=
  announceStat_keeps (Orderly.steady rules) (Orderly.ignored rules) fun owner =>
    expose_orderly orderly owner _

omit orderly [CustomTrigger π] in
theorem aside_orderly {e : Entity π} (tidy : w.entity.Tidy → e.Tidy)
    (same : e.effects = w.entity.effects) : Orderly rules w { w with entity := e } :=
  (Still.of_alike tidy (.of_effects same)).orderly

theorem performWith_orderly (c : Call π) : (performWith nested rules c).Keeps (Orderly rules) := by
  have steady := Orderly.steady rules
  have set (stat : StatName) (change : StatValue → StatValue) :
      (setStat nested rules stat change).Keeps (Orderly rules) := by
    refine setStat_keeps steady (fun change => ?_) (fun w modifying => ?_)
      (fun _ _ _ _ => orderly _) change
    · exact steady.bind (.of_still (.modifyEntity (fun _ tidy => { tidy with })
        fun _ => .of_effects rfl)) fun _ => orderly _
    · exact aside_orderly (fun tidy => { tidy with }) rfl
  cases c with
  | setBase stat value => exact set stat fun v => { v with base := value }
  | setCurrent stat value => exact set stat fun v => { v with current := value }
  | acquireModifier => exact acquireModifier_orderly
  | acquireStack =>
      exact .of_still (.updateEntity (fun _ tidy => tidy.acquireStack) fun _ => .of_effects rfl)
  | addModifier m source => exact addModifier_orderly orderly m source
  | removeModifier id =>
      exact removeModifier_keeps steady
        (fun stat => .of_still (.record (fun _ _ same => (Option.some.inj same).symm) fun _ => trivial))
        fun stat => removeModifierAt_orderly orderly stat id
  | removeModifiersOf source => exact removeModifiersOf_orderly orderly source
  | copyModifiers other source =>
      exact copyModifiers_keeps steady _ fun m _ =>
        steady.bind acquireModifier_orderly fun _ => insertModifier_orderly orderly _ _
  | addStack effect s source => exact addStack_orderly orderly effect s source
  | replaceStack effect s source =>
      exact replaceStack_keeps steady effect s source (.of_still (releaseStack_still s))
        (fun tag _ => removeStacksOf_orderly orderly effect tag)
        (addStack_orderly orderly effect s source)
  | removeStack effect id => exact removeStack_orderly orderly effect id
  | removeStacksOf effect source => exact removeStacksOf_orderly orderly effect source
  | reduceStacks effect amount => exact reduceStacks_orderly orderly effect amount
  | removeEffect effect => exact removeEffect_keeps steady (removeLive_orderly orderly effect)
  | refreshImmunity => exact refreshImmunity_keeps steady (settle_orderly orderly)
  | passTime delta =>
      exact passTime_keeps steady (Orderly.timeless rules)
        (fun _ _ w => aside_orderly (fun tidy => { tidy with }) rfl)
        fun owner => expose_orderly orderly owner _

theorem runScript_orderly {α : Type} (script : Script π α) :
    (runScriptWith nested rules script).Keeps (Orderly rules) := by
  have steady := Orderly.steady rules
  refine runScriptWith_keeps steady (Orderly.ignored rules) (fun c w => ?_) script
  refine (performWith_orderly orderly c w).mono fun reply w' before => ?_
  have recorded : (Act.record (.called c reply)).Keeps (Still rules) :=
    .record (fun _ _ same => (Option.some.inj same).symm) fun _ => trivial
  exact steady.trans before (Orderly.of_still recorded w' () _ rfl)

omit orderly in
theorem serve_orderly (levels : Nat) (r : Request π) :
    (serve rules levels r).Keeps (Orderly rules) := by
  refine serve_keeps (fun _ => Orderly rules) (fun nested orderly stat => ?_)
    (fun nested orderly hook script => ?_) levels r
  · exact announceStat_orderly orderly stat
  · refine runHookScript_keeps (Orderly.steady rules) (Orderly.ignored rules) (fun w running => ?_)
      hook (runScript_orderly orderly script)
    exact fun sound => ⟨{ sound with }, fun _ _ => id⟩

end Engine

/-! ### Runs -/

/-- Where no effect is live nothing is out of order, whatever the stats are. -/
theorem Sound.start (values : Table StatValue) :
    Sound rules (.ofEntity ({ Entity.new with values := values } : Entity π)) where
  tidy := { Entity.Tidy.new with }
  stocked _ _ found := by cases found
  sourced _ _ found := by cases found
  tallied _ _ _ found := by cases found
  trace _ member := by cases member

/-- Between calls nothing is out of order and nothing is unfinished. -/
theorem Reached.settled [CustomTrigger π] {snapshots : Snapshot → Prop}
    {calls : Entity π → Call π → Prop} (reached : Reached rules snapshots calls w) :
    Sound rules w ∧ ∀ name serial, ¬w.entity.Unfinished name serial := by
  have step {w w' : World π} (orderly : Orderly rules w w')
      (before : Sound rules w ∧ ∀ name serial, ¬w.entity.Unfinished name serial) :
      Sound rules w' ∧ ∀ name serial, ¬w'.entity.Unfinished name serial := by
    obtain ⟨sound, fewer⟩ := orderly before.1
    exact ⟨sound, fun name serial unfinished => before.2 name serial (fewer name serial unfinished)⟩
  induction reached with
  | new => exact ⟨.start ∅, fun _ _ ⟨_, found, _⟩ => by cases found⟩
  | @restored levels snapshot w _ restores =>
      have nested (r : Request π) : (Engine.serve rules levels r).Keeps (Orderly rules) :=
        Engine.serve_orderly levels r
      have orderly : Act.Keeps (Orderly rules) (snapshot.addParts rules levels).run :=
        Engine.addParts_keeps (Orderly.steady rules)
          (fun form _ m _ => Engine.insertModifier_orderly nested m form.source)
          (fun effect form s _ => Engine.addStack_orderly nested effect s form.source)
      exact step (orderly _ _ _ restores)
        ⟨.start snapshot.stats, fun _ _ ⟨_, found, _⟩ => by cases found⟩
  | @called levels w w' c reply _ _ returns ih =>
      exact step (Engine.performWith_orderly (Engine.serve_orderly levels) c _ _ _ returns) ih

/-- Whenever an outermost call comes back, every live effect stands under its own name, holds a
stack, has counted its active stacks, and applies exactly if it counts and the entity is not immune;
without a count it is only held by stacks with a source. -/
theorem live_effects_settled [CustomTrigger π] {snapshots : Snapshot → Prop}
    {calls : Entity π → Call π → Prop} (reached : Reached rules snapshots calls w)
    (immune : EffectName → Bool) (only : ∀ e effect, rules.isImmune e effect = immune effect)
    (name : EffectName) (live : LiveEffect π) (found : w.entity.effects.get? name = some live) :
    live.effect = name ∧ live.held ≠ [] ∧ live.count.toNat = live.activeSum ∧
      live.active = (0 < live.count && !immune name) ∧
      (live.count = 0 → ∀ s ∈ live.held, s.isSourced = true) := by
  obtain ⟨sound, none⟩ := reached.settled
  have tallied := sound.tallied name live id found
  have finished : live.Finished := by
    by_contra unfinished
    exact none name live.serial ⟨live, found, rfl, unfinished⟩
  exact ⟨(sound.tidy.effects name live found).filed, finished.held, tallied.count,
    tallied.active immune only, finished.drained⟩

/-- An effect whose hook takes a stack off again while the effect is being settled. -/
def rage : EffectDefinition Empty :=
  { EffectDefinition.ofName "rage" with
    maxStack := 5
    onActivate := some fun effect => do let _ ← Script.request (.reduceStacks effect 1) }

def rageRules : Rulebook Empty :=
  { ((Rulebook.builtin.registerEffect rage).toOption).getD .builtin with
    immunity := some fun _ effect => effect = "calm" }

/-- The hook of the effect takes one of three stacks off again, and the effect is settled. -/
theorem rage_settled : ∃ (w : World Empty) (live : LiveEffect Empty),
    Reached rageRules (fun _ => True) (fun _ _ => True) w ∧
      (∀ e effect, rageRules.isImmune e effect = decide (effect = "calm")) ∧
      w.entity.effects.get? "rage" = some live ∧
      (live.effect = "rage" ∧ live.held ≠ [] ∧ live.count.toNat = live.activeSum ∧
        live.active = (0 < live.count && !decide ("rage" = "calm")) ∧
        (live.count = 0 → ∀ s ∈ live.held, s.isSourced = true)) := by
  have made : ((Engine.performAll rageRules 6 [.addStack "rage" (.ofValue 3) none]
      (.ofEntity .new)).bind fun w => w.entity.effects.get? "rage").isSome = true := by
    decide +kernel
  obtain ⟨live, ends⟩ := Option.isSome_iff_exists.1 made
  obtain ⟨w, run, found⟩ := Option.bind_eq_some_iff.1 ends
  have reached : Reached rageRules (fun _ => True) (fun _ _ => True) w :=
    Engine.reached_of_performAll .new (fun _ _ _ => trivial) run
  have only : ∀ e effect, rageRules.isImmune e effect = decide (effect = "calm") :=
    fun _ _ => rfl
  exact ⟨w, live, reached, only, found, live_effects_settled reached _ only "rage" live found⟩

/-- Whoever sees the entity sees every live effect within its caps, and a stack without a source
that joins stacks which stay apart takes at most the room that the active stacks truly leave. -/
theorem stacks_within_caps [CustomTrigger π] {snapshots : Snapshot → Prop}
    {calls : Entity π → Call π → Prop} (reached : Reached rules snapshots calls w) :
    (∀ e, (e = w.entity ∨ ∃ o ∈ w.trace, o.seen? = some e) →
      ∀ name live, e.effects.get? name = some live →
        ∃ d, rules.effects.get? name = some d ∧
          (∀ s ∈ live.held, s.isSourced = false → 1 ≤ s.value.toNat) ∧
          (d.stacking ≠ .separate → (Stack.sourceless live.held).length ≤ 1) ∧
          (d.maxStack ≠ 0 → Stack.total (Stack.sourceless live.held) ≤ d.maxStack.toNat)) ∧
    ∀ effect s seen, .stackPushed effect s seen ∈ w.trace → s.isSourced = false →
      ∀ d live, rules.effects.get? effect = some d → seen.effects.get? effect = some live →
        d.stacking = .separate → d.maxStack ≠ 0 →
        1 ≤ s.value.toNat ∧ s.value.toNat + live.activeSum ≤ d.maxStack.toNat := by
  obtain ⟨sound, -⟩ := reached.settled
  have caps (e : Entity π) (stocked : e.Stocked rules) (name : EffectName) (live : LiveEffect π)
      (found : e.effects.get? name = some live) : ∃ d, rules.effects.get? name = some d ∧
        (∀ s ∈ live.held, s.isSourced = false → 1 ≤ s.value.toNat) ∧
        (d.stacking ≠ .separate → (Stack.sourceless live.held).length ≤ 1) ∧
        (d.maxStack ≠ 0 → Stack.total (Stack.sourceless live.held) ≤ d.maxStack.toNat) := by
    obtain ⟨d, registered, within⟩ := stocked name live found
    refine ⟨d, registered, fun s member none => ?_, within.single, within.capped⟩
    exact UInt32.lt_iff_toNat_lt.1 (within.positive s member none)
  constructor
  · rintro e (rfl | ⟨o, member, seen⟩)
    · exact caps _ sound.stocked
    · exact caps e ((sound.trace o member).seen e seen)
  · intro effect s seen member none d live registered found separate cap
    obtain ⟨positive, -, room⟩ := (sound.trace _ member).pushed d live registered found separate none
    rw [EffectDefinition.limit_eq cap] at room
    exact ⟨UInt32.lt_iff_toNat_lt.1 positive, room⟩

def venom : EffectDefinition Empty :=
  { EffectDefinition.ofName "venom" with
    maxStack := 3
    stacking := .separate
    onActivate := some fun effect => do
      let _ ← Script.request (.addStack effect (.ofValue 5) none) }

def venomRules : Rulebook Empty :=
  ((Rulebook.builtin.registerEffect venom).toOption).getD .builtin

def joinsTwo : Occurrence Empty → Bool
  | .stackPushed effect s seen => effect = "venom" && !s.isSourced &&
      (seen.effects.get? "venom").any fun live => live.activeSum = 2
  | _ => false

/-- A stack of five that joins one of two while the effect is being settled shrinks to the room. -/
theorem venom_within_caps : ∃ (w : World Empty) (s : Stack Empty) (seen : Entity Empty)
    (live : LiveEffect Empty), Reached venomRules (fun _ => True) (fun _ _ => True) w ∧
      .stackPushed "venom" s seen ∈ w.trace ∧ seen.effects.get? "venom" = some live ∧
      live.activeSum = 2 ∧ 1 ≤ s.value.toNat ∧ s.value.toNat + live.activeSum ≤ 3 := by
  have made : ((Engine.performAll venomRules 6 [.addStack "venom" (.ofValue 2) none]
      (.ofEntity .new)).any fun w => w.trace.any joinsTwo) = true := by
    decide +kernel
  obtain ⟨w, run, checked⟩ := Option.any_eq_true .. |>.1 made
  obtain ⟨o, member, passes⟩ := List.any_eq_true.1 checked
  have reached : Reached venomRules (fun _ => True) (fun _ _ => True) w :=
    Engine.reached_of_performAll .new (fun _ _ _ => trivial) run
  unfold joinsTwo at passes
  split at passes
  · rename_i effect s seen
    rw [Bool.and_eq_true, Bool.and_eq_true, Bool.not_eq_true', decide_eq_true_eq] at passes
    obtain ⟨⟨rfl, loose⟩, two⟩ := passes
    obtain ⟨live, found, sum⟩ := (Option.any_eq_true ..).1 two
    have room := (stacks_within_caps reached).2 "venom" s seen member loose venom live
      rfl found rfl (by decide)
    exact ⟨w, s, seen, live, reached, member, found, of_decide_eq_true sum, room.1, room.2⟩
  · cases passes

end StatusEffects
