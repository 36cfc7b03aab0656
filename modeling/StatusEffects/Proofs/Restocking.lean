import StatusEffects.Proofs.Loading

/-!
Stacks that are added again.

A stack whose effect takes it as it is joins the stacks that are there already. After each of them
the effect is settled, so with the last one it has the count and the modifiers that it had.
-/

set_option autoImplicit false

namespace StatusEffects

variable {π : Type}

/-! ### Stacks without their handles -/

namespace Stack

@[simp] theorem kernel_value (s : Stack π) : s.kernel.value = s.value := rfl

@[simp] theorem kernel_active (s : Stack π) : s.kernel.active = s.active := rfl

@[simp] theorem kernel_isSourced (s : Stack π) : s.kernel.isSourced = s.isSourced := rfl

/-- The sum of the active stacks does not depend on handles. -/
theorem total_active_of_kernel {held other : List (Stack π)}
    (same : held.map kernel = other.map kernel) :
    total (held.filter active) = total (other.filter active) := by
  have bare (held : List (Stack π)) :
      total ((held.map kernel).filter active) = total (held.filter active) := by
    unfold total
    rw [List.filter_map, List.map_map]
    rfl
  rw [← bare held, same, bare]

theorem sourced_of_kernel {held other : List (Stack π)} (same : held.map kernel = other.map kernel)
    (sourced : ∀ s ∈ other, s.isSourced = true) : ∀ s ∈ held, s.isSourced = true := by
  intro s member
  have kernel : s.kernel ∈ other.map kernel := by
    rw [← same]
    exact List.mem_map_of_mem member
  obtain ⟨before, present, equal⟩ := List.mem_map.1 kernel
  rw [← kernel_isSourced, ← equal]
  exact sourced before present

variable [CustomTrigger π]

/-- A stack that is built and attached again is as it was but for its handle. -/
theorem attach_pristine {s : Stack π} {r : Readings} (exact : s.duration.Exact r)
    (active : s.active = !s.duration.holds s.isSourced) {d : EffectDefinition π}
    (lasts : s.duration = .absent → d.duration = .absent) (id : Handle) :
    ({ s.pristine with
      duration := Engine.stackDuration d s.pristine.duration
      id := id }).attach r s.source = { s with id := id, attached := true } := by
  have own : Engine.stackDuration d s.duration.pristine = s.duration.pristine := by
    cases duration : s.duration with
    | absent =>
        change d.duration.pristine = _
        rw [lasts duration]
    | node head next alternative => rfl
  change ({ s.pristine with
      duration := (Engine.stackDuration d s.duration.pristine).arm r
      id := id
      attached := true
      source := s.source } : Stack π).refresh.1 = _
  rw [own, exact.arm_pristine]
  change ({ s with id := id, attached := true, active := !s.duration.holds s.isSourced } :
    Stack π) = _
  rw [← active]

end Stack

/-! ### Stacks that are taken as they are -/

/-- An effect takes a stack as it is: nothing of it has to be cut off or merged. -/
structure EffectDefinition.Takes (d : EffectDefinition π) (live : LiveEffect π) (s : Stack π) :
    Prop where
  counts : s.isSourced = false → s.active = true ∧ 0 < s.value
  apart : s.isSourced = false → d.stacking = .separate → s.value ≤ d.room live.count
  alone : s.isSourced = false → d.stacking ≠ .separate →
    (∀ other ∈ live.held, other.isSourced = true) ∧ d.clamp s.value = s.value

theorem EffectDefinition.le_room {d : EffectDefinition π} {count value : UInt32}
    (bounded : count.toNat + value.toNat < UInt32.size)
    (fits : d.maxStack ≠ 0 → count.toNat + value.toNat ≤ d.maxStack.toNat) :
    value ≤ d.room count := by
  rw [UInt32.le_iff_toNat_le, d.toNat_room]
  unfold limit
  split
  · omega
  · rename_i cap
    have within := fits cap
    omega

theorem EffectDefinition.clamp_eq {d : EffectDefinition π} {value : UInt32}
    (fits : d.maxStack ≠ 0 → value ≤ d.maxStack) : d.clamp value = value := by
  unfold clamp
  split
  · rfl
  · rename_i cap
    exact if_pos (fits cap)

/-- Under a cap that keeps stacks apart, each stack without a source has room beside the active ones
before it. -/
def LiveEffect.Roomy (d : EffectDefinition π) (live : LiveEffect π) : Prop :=
  d.stacking = .separate → d.maxStack ≠ 0 → ∀ n < live.held.length, ∀ s ∈ live.held[n]?,
    s.isSourced = false →
      Stack.total ((live.held.take n).filter Stack.active) + s.value.toNat ≤ d.maxStack.toNat

instance (d : EffectDefinition π) (live : LiveEffect π) : Decidable (live.Roomy d) :=
  inferInstanceAs (Decidable (_ → _ → ∀ n < live.held.length, ∀ s ∈ live.held[n]?, _ → _))

theorem LiveEffect.Roomy.room {d : EffectDefinition π} {live : LiveEffect π} (roomy : live.Roomy d)
    (separate : d.stacking = .separate) (cap : d.maxStack ≠ 0) {before after : List (Stack π)}
    {s : Stack π} (whole : live.held = before ++ s :: after) (sourceless : s.isSourced = false) :
    Stack.total (before.filter Stack.active) + s.value.toNat ≤ d.maxStack.toNat := by
  have placed := roomy separate cap before.length
  rw [whole, List.take_left, List.getElem?_append_right (Nat.le_refl _), Nat.sub_self] at placed
  exact placed (by simp) s rfl sourceless

section

variable {d : EffectDefinition π} {live full : LiveEffect π} {before after : List (Stack π)}
  {s s' : Stack π}

/-- An effect that has the first stacks of another one takes the next one. -/
theorem LiveEffect.Stocked.takes (stocked : full.Stocked d) (roomy : full.Roomy d)
    (bounded : full.activeSum < UInt32.size) (whole : full.held = before ++ s :: after)
    (held : live.held.map Stack.kernel = before.map Stack.kernel)
    (count : live.count.toNat = live.activeSum) (same : s'.kernel = s.kernel) :
    d.Takes live s' := by
  have value : s'.value = s.value := (congrArg Stack.value same :)
  have active : s'.active = s.active := (congrArg Stack.active same :)
  have sourced : s'.isSourced = s.isSourced := (congrArg Stack.isSourced same :)
  have member : s ∈ full.held := by
    rw [whole]
    exact List.mem_append_right _ (List.mem_cons_self ..)
  have counted : live.count.toNat = Stack.total (before.filter Stack.active) := by
    rw [count, LiveEffect.activeSum_eq, Stack.total_active_of_kernel held]
  constructor
  · intro sourceless
    rw [sourced] at sourceless
    rw [value, active]
    exact ⟨stocked.counts s member sourceless, stocked.positive s member sourceless⟩
  · intro sourceless separate
    rw [sourced] at sourceless
    rw [value]
    refine EffectDefinition.le_room ?_ fun cap => ?_
    · rw [counted]
      refine Nat.lt_of_le_of_lt ?_ bounded
      rw [LiveEffect.activeSum_eq, whole, List.filter_append, Stack.total_append,
        List.filter_cons_of_pos (stocked.counts s member sourceless), Stack.total_cons]
      omega
    · rw [counted]
      exact roomy.room separate cap whole sourceless
  · intro sourceless merged
    rw [sourced] at sourceless
    have single := stocked.single merged
    rw [whole, Stack.sourceless_append] at single
    unfold Stack.sourceless at single
    rw [List.filter_cons_of_pos (by rw [sourceless]; rfl), List.length_append,
      List.length_cons] at single
    have none : before.filter (fun s => !s.isSourced) = [] :=
      List.eq_nil_of_length_eq_zero (by omega)
    refine ⟨Stack.sourced_of_kernel held fun other present => ?_, ?_⟩
    · simpa using List.filter_eq_nil_iff.1 none other present
    · rw [value]
      refine EffectDefinition.clamp_eq fun cap => UInt32.le_iff_toNat_le.2 ?_
      refine Nat.le_trans (Stack.value_le_total ?_) (stocked.capped cap)
      exact Stack.mem_sourceless.2 ⟨member, sourceless⟩

/-- Stacks without a source count, so some of them that come to nothing have sources all. -/
theorem LiveEffect.Stocked.drained (stocked : full.Stocked d) {held : List (Stack π)}
    (some : held.Sublist full.held) (zero : Stack.total (held.filter Stack.active) = 0) :
    ∀ s ∈ held, s.isSourced = true := by
  intro s member
  rw [← Bool.not_eq_false]
  intro sourceless
  have present := some.subset member
  have positive := UInt32.lt_iff_toNat_lt.1 (stocked.positive s present sourceless)
  have within : s.value.toNat ≤ Stack.total (held.filter Stack.active) :=
    Stack.value_le_total (List.mem_filter.2 ⟨member, stocked.counts s present sourceless⟩)
  rw [zero] at within
  exact absurd positive (Nat.not_lt.2 within)

end

namespace Engine

open Act

variable [CustomTrigger π] {rules : Rulebook π} {saved e e' : Entity π}
  {touched : StatName → Prop} {nested : Nested π} {d : EffectDefinition π} {live : LiveEffect π}
  {s : Stack π}

theorem pushStack_brings {effect : EffectName} (found : e.effects.get? effect = some live)
    (s : Stack π) : (pushStack effect s).Brings e (.stack s.id) (e.pushStack effect s) := by
  have lives : e.effects.contains effect = true := by
    unfold Table.contains
    rw [found]
    rfl
  unfold pushStack
  refine .bind (.entity e) ?_
  rw [if_pos lives]
  exact .bind (.record _ e) (.bind (.modifyEntity _ e) (.pure _ _))

theorem placeStack_brings (found : e.effects.get? d.effect = some live) (takes : d.Takes live s) :
    (placeStack nested rules d s).Brings e (.stack s.id) (e.pushStack d.effect s) := by
  have pushes := pushStack_brings found s
  cases sourced : s.isSourced with
  | true =>
      rw [placeStack_of_sourced sourced]
      exact pushes
  | false =>
      obtain ⟨active, positive⟩ := takes.counts sourced
      have some : s.value ≠ 0 := fun zero => by
        rw [zero] at positive
        exact absurd positive (UInt32.lt_irrefl 0)
      have capped (value : UInt32) (whole : value = s.value) :
          (pushCapped d.effect s value).Brings e (.stack s.id) (e.pushStack d.effect s) := by
        subst whole
        unfold pushCapped
        rw [if_neg some]
        exact pushes
      rw [placeStack, sourced, active, Bool.not_true, Bool.false_and, if_neg Bool.false_ne_true,
        if_neg Bool.false_ne_true]
      split
      · rename_i separate
        refine .bind (.entity e) (capped _ ?_)
        have count : e.activeCount d.effect = live.count := by
          unfold Entity.activeCount
          rw [found, Option.map_some, Option.getD_some]
        rw [count]
        exact if_pos (takes.apart sourced separate)
      · rename_i merged
        obtain ⟨sources, whole⟩ := takes.alone sourced merged
        have none : (e.effects.get? d.effect).bind LiveEffect.firstSourceless? = none := by
          rw [found, Option.bind_some]
          unfold LiveEffect.firstSourceless?
          rw [Option.map_eq_none_iff, List.find?_eq_none]
          intro other member
          rw [sources other member]
          exact Bool.false_ne_true
        refine .bind (.entity e) ?_
        rw [none]
        exact capped _ whole

end Engine

/-! ### Effects that come back stack by stack -/

namespace Entity

variable {e e' : Entity π}

structure Beside (effect : EffectName) (e e' : Entity π) : Prop where
  effects : ∀ other, other ≠ effect → e'.effects.get? other = e.effects.get? other
  shares : ∀ owns : Option SourceTag → Bool, owns (some (SourceTag.ofEffect effect)) = false →
    ∀ stat, e'.share owns stat = e.share owns stat

theorem Beside.trans {effect : EffectName} {e₁ e₂ e₃ : Entity π} (first : e₁.Beside effect e₂)
    (second : e₂.Beside effect e₃) : e₁.Beside effect e₃ where
  effects other different := (second.effects other different).trans (first.effects other different)
  shares owns others stat := (second.shares owns others stat).trans (first.shares owns others stat)

theorem Beside.latest {effect : EffectName} (beside : e.Beside effect e')
    (latest : ∀ other, e.effects.contains other = true → ¬effect < other) (other : EffectName)
    (lives : e'.effects.contains other = true) : ¬effect < other := by
  by_cases own : other = effect
  · rw [own]
    exact String.lt_irrefl _
  · refine latest other ?_
    unfold Table.contains at lives ⊢
    rwa [beside.effects other own] at lives

variable [CustomTrigger π]

theorem get?_pushStack (e : Entity π) (effect other : EffectName) (s : Stack π) :
    (e.pushStack effect s).effects.get? other = if other = effect then
      (e.effects.get? other).map fun live => { live with held := live.held ++ [s] }
    else e.effects.get? other :=
  get?_modifyEffect e effect other _

theorem Beside.pushStack (e : Entity π) (effect : EffectName) (s : Stack π) :
    e.Beside effect (e.takeHandle.2.pushStack effect s) where
  effects other different := by
    rw [get?_pushStack, if_neg different]
    rfl
  shares _ _ _ := rfl

variable {rules : Rulebook π} {saved : Entity π}
  {touched : StatName → Prop} {d : EffectDefinition π} {held : List (Stack π)}

/-- A stack may come if its tree is as it was saved. -/
theorem Loading.pushStack (loading : e.Loading rules saved touched) (effect : EffectName)
    {s : Stack π} (new : s.id = e.nextHandle) (steady : s.duration.Steady touched)
    (exact : s.duration.Exact (rules.readings saved)) :
    (e.takeHandle.2.pushStack effect s).Loading rules saved touched := by
  have handled : e.takeHandle.2.Loading rules saved touched :=
    loading.of_same loading.tidy.takeHandle rfl rfl rfl
  refine handled.quiet (handled.tidy.pushStack (by rw [new]; exact loading.tidy.spare)) rfl rfl
    (fun other => (contains_modifyEffect ..).trans) fun owner c gate bears => ?_
  rcases bears_pushStack effect s bears with ⟨before, -⟩ | ⟨-, rfl, -⟩
  · exact .inl before
  · exact .inr ⟨steady, exact⟩

/-- An effect has certain stacks again, with the count and the modifiers that go with them. -/
structure Holding (rules : Rulebook π) (e saved : Entity π) (d : EffectDefinition π)
    (held : List (Stack π)) : Prop where
  same : ∀ live, e.effects.get? d.effect = some live →
    live.held.map Stack.kernel = held.map Stack.kernel
  gone : e.effects.get? d.effect = none → held = []
  count : ∀ live, e.effects.get? d.effect = some live → live.count.toNat = live.activeSum
  active : ∀ live, e.effects.get? d.effect = some live → live.active = decide (0 < live.count)
  own : ∀ stat, e.share (ofEffect d.effect) stat =
    (e.owed rules (rules.readings saved) d.effect stat).map Modifier.kernel

def withBlank (e : Entity π) (effect : EffectName) : Entity π :=
  e.acquireEffect.2.addEffect { e.acquireEffect.1 with effect := effect } []

theorem withBlank_effects (tidy : e.Tidy) (effect : EffectName) :
    (e.withBlank effect).effects = e.effects.insert effect
      { LiveEffect.blank with serial := e.nextHandle, effect := effect } := by
  refine (addEffect_effects ..).trans ?_
  rw [List.append_nil, tidy.acquireEffect_fst]
  rfl

theorem get?_withBlank (tidy : e.Tidy) (effect : EffectName) :
    (e.withBlank effect).effects.get? effect =
      some { LiveEffect.blank with serial := e.nextHandle, effect := effect } := by
  rw [withBlank_effects tidy, Table.get?_insert_self]

theorem withBlank_stats (e : Entity π) (effect : EffectName) :
    (e.withBlank effect).values = e.values ∧ (e.withBlank effect).modifiers = e.modifiers :=
  addEffect_stats e.acquireEffect.2 _ []

theorem Loading.withBlank (loading : e.Loading rules saved touched) (effect : EffectName) :
    (e.withBlank effect).Loading rules saved touched := by
  obtain ⟨values, modifiers⟩ := e.withBlank_stats effect
  refine loading.quiet (loading.tidy.addNewEffect effect []) values modifiers
    (fun other lives => ?_) fun owner c gate bears => ?_
  · unfold Table.contains
    rw [withBlank_effects loading.tidy, Table.get?_insert]
    split
    · rfl
    · exact lives
  · have whole := loading.tidy.acquireEffect_fst
    let blank : LiveEffect π := { e.acquireEffect.1 with effect := effect }
    have empty : blank.held = [] := congrArg LiveEffect.held whole
    have bare : blank.conditions = [] := congrArg LiveEffect.conditions whole
    rcases bears_addEffect empty bare [] bears with ⟨before, -⟩ | ⟨index, -, placed, -⟩
    · exact .inl (before.of_same rfl rfl)
    · cases placed

theorem Beside.withBlank (tidy : e.Tidy) (effect : EffectName) :
    e.Beside effect (e.withBlank effect) where
  effects other different := by rw [withBlank_effects tidy, Table.get?_insert, if_neg different]
  shares _ _ _ := share_of_modifiers (e.withBlank_stats effect).2

/-- An effect without stacks owes nothing, just as one that is not live. -/
theorem Holding.withBlank (holding : e.Holding rules saved d held) (tidy : e.Tidy)
    (registered : rules.effects.get? d.effect = some d) (found : e.effects.get? d.effect = none) :
    (e.withBlank d.effect).Holding rules saved d held := by
  have there := get?_withBlank tidy d.effect
  have none := holding.gone found
  refine ⟨fun live lives => ?_, fun gone => ?_, fun live lives => ?_, fun live lives => ?_,
    fun stat => ?_⟩
  · rw [there] at lives
    cases lives
    rw [none]
    rfl
  · rw [there] at gone
    cases gone
  · rw [there] at lives
    cases lives
    rfl
  · rw [there] at lives
    cases lives
    rfl
  · have owes : (e.withBlank d.effect).due d = [] ∧ e.due d = [] := by
      unfold due
      rw [there, found]
      exact ⟨rfl, rfl⟩
    rw [share_of_modifiers (e := e) (e.withBlank_stats d.effect).2, holding.own,
      owed_of_registered registered, owed_of_registered registered, owes.1, owes.2]

end Entity

namespace Engine

open Act

variable [CustomTrigger π] {rules : Rulebook π} {saved e e' : Entity π}
  {touched : StatName → Prop} {nested : Nested π} {d : EffectDefinition π}

omit [CustomTrigger π] in
theorem contains_of_found {effect : EffectName} {live : LiveEffect π}
    (found : e.effects.get? effect = some live) : e.effects.contains effect = true := by
  unfold Table.contains
  rw [found]
  rfl

theorem ensureLive_live {live : LiveEffect π} (found : e.effects.get? d.effect = some live) :
    (ensureLive rules d).Brings e false e := by
  unfold ensureLive
  refine .bind (.entity e) ?_
  rw [if_pos (contains_of_found found)]
  exact .pure false e

theorem ensureLive_new (silent : d.Silent) (found : e.effects.get? d.effect = none) :
    (ensureLive rules d).Brings e true (e.withBlank d.effect) := by
  unfold ensureLive
  refine .bind (.entity e) ?_
  rw [if_neg (by unfold Table.contains; rw [found]; exact Bool.false_ne_true)]
  refine .bind (.updateEntity Entity.acquireEffect e) (.bind (.consulted _) ?_)
  rw [silent.customEffects]
  exact .bind (.modifyEntity _ _) (.pure true _)

theorem ensureLive_brings (registered : rules.effects.get? d.effect = some d) (silent : d.Silent)
    (loading : e.Loading rules saved touched) {held : List (Stack π)}
    (holding : e.Holding rules saved d held) :
    ∃ created e' live, (ensureLive rules d).Brings e created e' ∧
      e'.effects.get? d.effect = some live ∧ e'.Loading rules saved touched ∧
      e'.Holding rules saved d held ∧ e.Beside d.effect e' := by
  cases found : e.effects.get? d.effect with
  | some live =>
      exact ⟨false, e, live, ensureLive_live found, found, loading, holding, fun _ _ => rfl,
        fun _ _ _ => rfl⟩
  | none =>
      exact ⟨true, e.withBlank d.effect, _, ensureLive_new silent found,
        Entity.get?_withBlank loading.tidy d.effect, loading.withBlank d.effect,
        holding.withBlank loading.tidy registered found, .withBlank loading.tidy d.effect⟩

theorem Settled.beside {count : UInt32} (settled : Settled rules saved touched d count e e') :
    e.Beside d.effect e' where
  effects other different := by
    rw [settled.effects, Entity.storeCount, Entity.get?_modifyEffect, if_neg different]
  shares := settled.others

section

variable {live : LiveEffect π}
  (settled : Settled rules saved touched d live.activeSum.toUInt32 e e')
  (found : e.effects.get? d.effect = some live)

include settled found

theorem Settled.lives : e'.effects.get? d.effect = some { live with
    count := live.activeSum.toUInt32, active := 0 < live.activeSum.toUInt32 } := by
  rw [settled.effects, Entity.get?_storeCount found]

/-- An effect that has been settled has what goes with its stacks. -/
theorem Settled.holding {held : List (Stack π)} (bounded : live.activeSum < UInt32.size)
    (same : live.held.map Stack.kernel = held.map Stack.kernel) :
    e'.Holding rules saved d held := by
  have there := settled.lives found
  refine ⟨fun live' lives => ?_, fun gone => ?_, fun live' lives => ?_, fun live' lives => ?_,
    settled.own⟩
  · rw [there] at lives
    cases lives
    exact same
  · rw [there] at gone
    cases gone
  · rw [there] at lives
    cases lives
    exact UInt32.toNat_ofNat_of_lt' bounded
  · rw [there] at lives
    cases lives
    rfl

end

section

variable {s s' : Stack π} {source : Option SourceTag} {created : Bool} {e₁ e₂ : Entity π}
  (ensures : (ensureLive rules d).Brings e created e₁)
  (attached : ({ s with duration := stackDuration d s.duration, id := e₁.nextHandle }).attach
    (rules.readings e₁.takeHandle.2) source = s')

include ensures attached

theorem addStackOf_brings (silent : d.Silent) {outcome : Outcome} (applied : outcome.isApplied = true)
    (places : (placeStack nested rules d s').Brings e₁.takeHandle.2 outcome e₂)
    (settles : (settle nested rules d.effect).Brings e₂ () e') :
    (addStackOf nested rules d s source).Brings e outcome e' := by
  subst attached
  unfold addStackOf
  refine ensures.bind (.bind (.updateEntity Entity.takeHandle e₁) (.bind (.consulted _) ?_))
  refine places.bind ?_
  have told : (settleStacks nested rules d.effect).Brings e₂ () e' :=
    .bind (.record _ e₂) settles
  rw [silent.onAddStack, if_pos applied]
  exact told.bind (.bind (.pure () e') (.pure _ e'))

/-- An effect that was made live for a stack that is dropped goes again. -/
theorem addStackOf_discarded
    (places : (placeStack nested rules d s').Brings e₁.takeHandle.2 .discarded e₂)
    (ends : if created then (removeIfEmpty nested rules d.effect).Brings e₂ () e' else e' = e₂) :
    (addStackOf nested rules d s source).Brings e .discarded e' := by
  subst attached
  unfold addStackOf
  refine ensures.bind (.bind (.updateEntity Entity.takeHandle e₁) (.bind (.consulted _) ?_))
  refine places.bind ?_
  cases created with
  | true => exact Brings.bind ends (.pure _ e')
  | false =>
      cases ends
      exact .pure _ e'

end

/-- The next stack of an effect is added again. -/
theorem addStack_brings (plain : rules.statRules = ∅)
    (idle : ∀ stat, ¬touched stat → saved.modifiers.get stat = [])
    (announces : Restful rules nested) (mortal : rules.immunity = none)
    (registered : rules.effects.get? d.effect = some d) (silent : d.Silent)
    (templates : ∀ t ∈ d.modifiers, t.duration.Steady touched ∧ touched t.stat)
    {full : LiveEffect π} (stocked : full.Stocked d) (roomy : full.Roomy d)
    (bounded : full.activeSum < UInt32.size) {before after : List (Stack π)} {s : Stack π}
    (whole : full.held = before ++ s :: after) (steady : s.duration.Steady touched)
    (exact : s.duration.Exact (rules.readings saved))
    (active : s.active = !s.duration.holds s.isSourced)
    (lasts : s.duration = .absent → d.duration = .absent)
    (loading : e.Loading rules saved touched) (holding : e.Holding rules saved d before)
    (latest : ∀ effect, e.effects.contains effect = true → ¬d.effect < effect) :
    ∃ outcome e', (addStack nested rules d.effect s.pristine s.source).Brings e (.ok outcome) e' ∧
      e'.Loading rules saved touched ∧ e'.Holding rules saved d (before ++ [s]) ∧
      e'.effects.contains d.effect = true ∧ e.Beside d.effect e' := by
  obtain ⟨created, e₁, live, ensures, there, loading₁, holding₁, beside₁⟩ :=
    ensureLive_brings registered silent loading holding
  have agree : (rules.readings saved).AgreeBut touched (rules.readings e₁.takeHandle.2) :=
    (loading₁.of_same loading₁.tidy.takeHandle rfl rfl rfl).agree plain idle
  -- The new stack is the saved one with another handle, so the effect takes it as it is.
  let s' : Stack π := { s with id := e₁.nextHandle, attached := true }
  have attached : ({ s.pristine with
      duration := stackDuration d s.pristine.duration
      id := e₁.nextHandle }).attach (rules.readings e₁.takeHandle.2) s.source = s' :=
    Stack.attach_pristine (exact.of_steady steady agree) active lasts _
  have takes : d.Takes live s' :=
    stocked.takes roomy bounded whole (holding₁.same live there) (holding₁.count live there) rfl
  let e₂ := e₁.takeHandle.2.pushStack d.effect s'
  let live₂ : LiveEffect π := { live with held := live.held ++ [s'] }
  have found : e₂.effects.get? d.effect = some live₂ := by
    rw [Entity.get?_pushStack, if_pos rfl]
    change (e₁.effects.get? d.effect).map _ = _
    rw [there]
    rfl
  have loading₂ : e₂.Loading rules saved touched :=
    loading₁.pushStack d.effect rfl steady exact
  have beside₂ : e.Beside d.effect e₂ := beside₁.trans (.pushStack e₁ d.effect s')
  have held : live₂.held.map Stack.kernel = (before ++ [s]).map Stack.kernel := by
    change (live.held ++ [s']).map Stack.kernel = _
    rw [List.map_append, List.map_append, holding₁.same live there]
    rfl
  -- What is there again is a first part of what was saved, so its sum is bounded as well.
  have first : (before ++ [s]).Sublist full.held := by
    rw [whole]
    exact List.Sublist.append_left (List.singleton_sublist.2 (List.mem_cons_self ..)) before
  have sum : live₂.activeSum = Stack.total ((before ++ [s]).filter Stack.active) := by
    rw [LiveEffect.activeSum_eq, Stack.total_active_of_kernel held]
  have fits : live₂.activeSum < UInt32.size := by
    refine Nat.lt_of_le_of_lt ?_ bounded
    rw [sum, LiveEffect.activeSum_eq]
    exact Stack.total_le_of_sublist (first.filter _)
  have drained (zero : live₂.activeSum = 0) : ∀ s ∈ live₂.held, s.isSourced = true :=
    Stack.sourced_of_kernel held (stocked.drained first (sum.symm.trans zero))
  have served (stat : StatName) : e₂.share (Entity.ofEffect d.effect) stat =
      (e₂.owed rules (rules.readings saved) d.effect stat).map Modifier.kernel := by
    refine (holding₁.own stat).trans ?_
    rw [Entity.owed_of_registered registered, Entity.owed_of_registered registered,
      due_of_live found, due_of_live there]
  obtain ⟨e', settles, settled⟩ := settle_brings plain idle announces registered templates mortal
    silent loading₂ (beside₂.latest latest) found (by simp [live₂]) fits drained served
  refine ⟨.stack s'.id, e', ?_, settled.loading, settled.holding found fits held, ?_,
    beside₂.trans settled.beside⟩
  · unfold addStack
    rw [registered]
    exact .map Except.ok
      (addStackOf_brings ensures attached silent rfl (placeStack_brings there takes) settles)
  · unfold Table.contains
    rw [settled.lives found]
    rfl

end Engine

end StatusEffects
