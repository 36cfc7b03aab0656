import StatusEffects.Proofs.Run
import StatusEffects.Proofs.StackCaps
import StatusEffects.Proofs.Tidy

/-!
What quiet changes leave alone.

Whatever the engine does by itself, it takes out only what nobody owns and what effects have applied;
what somebody owns goes when a call asks for it. A change of stacks is a matter of one effect, and
whether an effect applies is changed only by settling it or taking it out.

Here this is said of one quiet change after the other, in terms of the calls that are being served.
-/

set_option autoImplicit false

namespace StatusEffects

variable {π : Type}

/-! ### What the calls leave -/

/-- Somebody who is no effect owns the modifier, and none of the calls takes it away. -/
structure Modifier.Spared (calls : Call π → Prop) (m : Modifier π) : Prop where
  owned : ∃ source, m.source = some source ∧ source.isOfEffect = false ∧
    ¬calls (.removeModifiersOf source)
  untaken : ¬calls (.removeModifier m.id)

/-- Somebody owns the stack, and none of the calls takes it out of its effect. -/
structure Stack.Spared (calls : Call π → Prop) (effect : EffectName) (s : Stack π) : Prop where
  owned : ∃ source, s.source = some source ∧ ¬calls (.removeStacksOf effect source) ∧
    ∀ other, ¬calls (.replaceStack effect other source)
  untaken : ¬calls (.removeStack effect s.id)

theorem Modifier.Spared.isSourced {calls : Call π → Prop} {m : Modifier π}
    (spared : m.Spared calls) : m.isSourced = true := by
  obtain ⟨source, owner, -⟩ := spared.owned
  unfold Modifier.isSourced
  rw [owner]
  rfl

theorem Modifier.Spared.not_ofEffect {calls : Call π → Prop} {m : Modifier π}
    (spared : m.Spared calls) {effect : EffectName} (source : m.source = some (.ofEffect effect)) :
    False := by
  obtain ⟨owner, same, other, -⟩ := spared.owned
  rw [source] at same
  cases same
  rw [SourceTag.isOfEffect_ofEffect] at other
  cases other

theorem Stack.Spared.isSourced {calls : Call π → Prop} {effect : EffectName} {s : Stack π}
    (spared : s.Spared calls effect) : s.isSourced = true := by
  obtain ⟨source, owner, -⟩ := spared.owned
  unfold Stack.isSourced
  rw [owner]
  rfl

variable [CustomTrigger π]

/-! ### Entries that go on -/

inductive Condition.Proceeds (c : Condition π) : Condition π → Prop where
  | refl : Proceeds c c
  | step {c₁ : Condition π} (before : Proceeds c c₁) (stimulus : Stimulus) (r : Readings) :
      Proceeds c (Engine.Stimulus.apply stimulus r c₁).1

theorem Condition.Proceeds.trans {c c₁ c₂ : Condition π} (first : c.Proceeds c₁)
    (second : c₁.Proceeds c₂) : c.Proceeds c₂ := by
  induction second with
  | refl => exact first
  | step _ stimulus r ih => exact .step ih stimulus r

/-- A modifier is as it was, but for its activity and the progress of its duration. -/
def Modifier.Proceeds (m m' : Modifier π) : Prop :=
  ∃ duration active, m.duration.Proceeds duration ∧
    m' = { m with duration := duration, active := active }

def Stack.Proceeds (s s' : Stack π) : Prop :=
  ∃ duration active, s.duration.Proceeds duration ∧
    s' = { s with duration := duration, active := active }

theorem Modifier.Proceeds.refl (m : Modifier π) : m.Proceeds m := ⟨_, _, .refl, rfl⟩

theorem Stack.Proceeds.refl (s : Stack π) : s.Proceeds s := ⟨_, _, .refl, rfl⟩

theorem Modifier.Proceeds.trans {m m₁ m₂ : Modifier π} (first : m.Proceeds m₁)
    (second : m₁.Proceeds m₂) : m.Proceeds m₂ := by
  obtain ⟨_, _, before, rfl⟩ := first
  obtain ⟨duration, active, after, rfl⟩ := second
  exact ⟨duration, active, before.trans after, rfl⟩

theorem Stack.Proceeds.trans {s s₁ s₂ : Stack π} (first : s.Proceeds s₁)
    (second : s₁.Proceeds s₂) : s.Proceeds s₂ := by
  obtain ⟨_, _, before, rfl⟩ := first
  obtain ⟨duration, active, after, rfl⟩ := second
  exact ⟨duration, active, before.trans after, rfl⟩

theorem Modifier.Spared.proceeds {calls : Call π → Prop} {m m' : Modifier π}
    (spared : m.Spared calls) (proceeds : m.Proceeds m') : m'.Spared calls := by
  obtain ⟨_, _, -, rfl⟩ := proceeds
  exact ⟨spared.owned, spared.untaken⟩

theorem Stack.Spared.proceeds {calls : Call π → Prop} {effect : EffectName} {s s' : Stack π}
    (spared : s.Spared calls effect) (proceeds : s.Proceeds s') : s'.Spared calls effect := by
  obtain ⟨_, _, -, rfl⟩ := proceeds
  exact ⟨spared.owned, spared.untaken⟩

namespace Entity

def held (e : Entity π) (effect : EffectName) : List (Stack π) :=
  ((e.effects.get? effect).map LiveEffect.held).getD []

/-- A change leaves all stacks and all effects as they are but for trees, and keeps the modifiers that
the calls leave. -/
structure Spares (calls : Call π → Prop) (e e' : Entity π) : Prop where
  outlines : ∀ effect, (e'.held effect).map Stack.outline = (e.held effect).map Stack.outline
  active : ∀ effect, e'.hasEffect effect = e.hasEffect effect
  held : ∀ effect, ∀ s ∈ e.held effect, s.isSourced = true →
    ∃ s' ∈ e'.held effect, s.Proceeds s'
  modifiers : ∀ stat, ∀ m ∈ e.modifiers.get stat, m.Spared calls →
    ∃ m' ∈ e'.modifiers.get stat, m.Proceeds m'

/-- A change is about the stacks of one effect, and keeps those that the calls leave. -/
structure Restacks (calls : Call π → Prop) (effect : EffectName) (e e' : Entity π) : Prop where
  others : ∀ name, name ≠ effect → e'.held name = e.held name
  active : ∀ name, e'.hasEffect name = e.hasEffect name
  held : ∀ s ∈ e.held effect, s.Spared calls effect → ∃ s' ∈ e'.held effect, s.Proceeds s'
  modifiers : e'.modifiers = e.modifiers

variable {calls : Call π → Prop} {e e₁ e₂ e' : Entity π} {effect : EffectName}

omit [CustomTrigger π] in
theorem held_of_found {live : LiveEffect π} (found : e.effects.get? effect = some live) :
    e.held effect = live.held := by
  unfold held
  rw [found]
  rfl

omit [CustomTrigger π] in
theorem held_modifyEffect (change : LiveEffect π → LiveEffect π) (name : EffectName) :
    (e.modifyEffect effect change).held name =
      if name = effect then ((e.effects.get? name).map fun live => (change live).held).getD []
      else e.held name := by
  unfold held
  rw [get?_modifyEffect]
  split
  · rw [Option.map_map]
    rfl
  · rfl

omit [CustomTrigger π] in
theorem held_setStacks {live : LiveEffect π} {held : List (Stack π)}
    (found : e.effects.get? effect = some live) : (e.setStacks effect held).held effect = held := by
  unfold setStacks
  rw [held_modifyEffect, if_pos rfl, found]
  rfl

omit [CustomTrigger π] in
theorem stack?_setCondition (e : Entity π) (effect : EffectName) (id : Handle) (c : Condition π) :
    (e.setCondition (.stack effect id) c).stack? effect id =
      (e.stack? effect id).map fun s => { s with duration := c } := by
  unfold stack? setCondition
  rw [get?_modifyEffect, if_pos rfl]
  cases e.effects.get? effect with
  | none => rfl
  | some live =>
      rw [Option.map_some, Option.bind_some, Option.bind_some]
      apply find?_modifyFirst
      exact fun _ there => there

/-! ### Changes that spare -/

theorem Spares.refl (e : Entity π) : e.Spares calls e :=
  ⟨fun _ => rfl, fun _ => rfl, fun _ s member _ => ⟨s, member, .refl s⟩,
    fun _ m member _ => ⟨m, member, .refl m⟩⟩

theorem Spares.trans (first : e.Spares calls e₁) (second : e₁.Spares calls e₂) :
    e.Spares calls e₂ := by
  refine ⟨fun effect => (second.outlines effect).trans (first.outlines effect),
    fun effect => (second.active effect).trans (first.active effect),
    fun effect s member sourced => ?_, fun stat m member spared => ?_⟩
  · obtain ⟨s₁, member₁, proceeds₁⟩ := first.held effect s member sourced
    have sourced₁ : s₁.isSourced = true := by
      obtain ⟨_, _, -, rfl⟩ := proceeds₁
      exact sourced
    obtain ⟨s₂, member₂, proceeds₂⟩ := second.held effect s₁ member₁ sourced₁
    exact ⟨s₂, member₂, proceeds₁.trans proceeds₂⟩
  · obtain ⟨m₁, member₁, proceeds₁⟩ := first.modifiers stat m member spared
    obtain ⟨m₂, member₂, proceeds₂⟩ := second.modifiers stat m₁ member₁ (spared.proceeds proceeds₁)
    exact ⟨m₂, member₂, proceeds₁.trans proceeds₂⟩

/-- What touches neither modifiers nor effects spares everything. -/
theorem Spares.of_same (modifiers : e'.modifiers = e.modifiers) (effects : e'.effects = e.effects) :
    e.Spares calls e' := by
  have held (effect : EffectName) : e'.held effect = e.held effect := by
    unfold Entity.held
    rw [effects]
  refine ⟨fun effect => by rw [held], fun effect => ?_, fun effect s member _ => ?_,
    fun stat m member _ => ?_⟩
  · unfold hasEffect
    rw [effects]
  · exact ⟨s, held effect ▸ member, .refl s⟩
  · exact ⟨m, modifiers ▸ member, .refl m⟩

/-- What touches modifiers only spares everything if it keeps those that the calls leave. -/
theorem Spares.of_modifiers (effects : e'.effects = e.effects)
    (kept : ∀ stat, ∀ m ∈ e.modifiers.get stat, m.Spared calls →
      ∃ m' ∈ e'.modifiers.get stat, m.Proceeds m') : e.Spares calls e' := by
  have rest : e.Spares calls { e' with modifiers := e.modifiers } := .of_same rfl effects
  exact ⟨rest.outlines, rest.active, rest.held, kept⟩

/-- What touches one live effect only spares everything if it changes nothing but trees there. -/
theorem Spares.of_effect {change : LiveEffect π → LiveEffect π}
    (outlines : ∀ live, e.effects.get? effect = some live →
      (change live).held.map Stack.outline = live.held.map Stack.outline)
    (active : ∀ live, e.effects.get? effect = some live → (change live).active = live.active)
    (kept : ∀ live, e.effects.get? effect = some live → ∀ s ∈ live.held, s.isSourced = true →
      ∃ s' ∈ (change live).held, s.Proceeds s') : e.Spares calls (e.modifyEffect effect change) := by
  refine ⟨fun name => ?_, fun name => ?_, fun name s member sourced => ?_,
    fun stat m member _ => ⟨m, member, .refl m⟩⟩
  · rw [held_modifyEffect]
    split
    · rename_i here
      subst here
      unfold Entity.held
      cases found : e.effects.get? name with
      | none => rfl
      | some live => exact outlines live found
    · rfl
  · exact hasEffect_modifyEffect active
  · rw [held_modifyEffect]
    split
    · rename_i here
      subst here
      cases found : e.effects.get? name with
      | none =>
          unfold Entity.held at member
          rw [found] at member
          cases member
      | some live =>
          rw [held_of_found found] at member
          exact kept live found s member sourced
    · exact ⟨s, member, .refl s⟩

/-! ### Modifiers that come and go -/

omit [CustomTrigger π] in
theorem mem_of_find {stat : StatName} {id : Handle} {m : Modifier π}
    (found : e.modifiers.find? stat id = some m) : m ∈ e.modifiers.get stat ∧ m.id = id :=
  ⟨List.mem_of_find?_eq_some found, of_decide_eq_true (List.find?_some found :)⟩

/-- A modifier that is changed in its place goes on. -/
theorem Spares.modify {stat : StatName} {id : Handle} {change : Modifier π → Modifier π}
    (goes : ∀ m, e.modifiers.find? stat id = some m → m.Proceeds (change m)) :
    e.Spares calls { e with modifiers := e.modifiers.modify stat id change } := by
  refine .of_modifiers rfl fun other m member _ => ?_
  change ∃ m' ∈ (e.modifiers.modify stat id change).get other, m.Proceeds m'
  rw [ModifierLists.get_modify]
  split
  · rename_i here
    subst here
    rcases modifyFirst_of_mem member with same | ⟨found, changed⟩
    · exact ⟨m, same, .refl m⟩
    · exact ⟨_, changed, goes m found⟩
  · exact ⟨m, member, .refl m⟩

theorem Spares.updateModifier {stat : StatName} {id : Handle} {m : Modifier π}
    (found : e.modifiers.find? stat id = some m) :
    e.Spares calls (e.updateModifier stat id m.refresh.1) := by
  refine .modify fun before there => ?_
  rw [found] at there
  cases there
  exact ⟨_, _, .refl, rfl⟩

theorem Spares.addModifier (e : Entity π) (operators : OperatorTable) (m : Modifier π) :
    e.Spares calls (e.addModifier operators m) := by
  refine .of_modifiers rfl fun stat before member _ => ⟨before, ?_, .refl before⟩
  change before ∈ (e.modifiers.insert operators m).get stat
  rw [ModifierLists.get_insert]
  split
  · exact (ModifierLists.place_perm ..).mem_iff.2 (List.mem_cons_of_mem _ member)
  · exact member

theorem Spares.dropModifier {stat : StatName} {id : Handle}
    (dropped : e.dropModifier? stat id = some e')
    (cause : ∀ m, e.modifiers.find? stat id = some m → ¬m.Spared calls) : e.Spares calls e' := by
  obtain ⟨⟨gone, rest⟩, removed, rfl⟩ := Option.map_eq_some_iff.1 dropped
  refine .of_modifiers rfl fun other m member spared => ⟨m, ?_, .refl m⟩
  change m ∈ rest.get other
  rw [ModifierLists.get_remove? removed]
  split
  · rename_i here
    subst here
    cases found : e.modifiers.find? other id with
    | none =>
        have absent := ModifierLists.remove?_eq_none.2 found
        rw [removed] at absent
        cases absent
    | some first =>
        have whole := (perm_cons_eraseP (found :)).mem_iff.1 member
        rcases List.mem_cons.1 whole with rfl | stays
        · exact absurd spared (cause m found)
        · exact stays
  · exact member

theorem Spares.dropModifiersOf {source : SourceTag}
    (cause : ∀ m : Modifier π, m.source = some source → ¬m.Spared calls) :
    e.Spares calls (e.dropModifiersOf source) := by
  refine .of_modifiers (dropModifiersOf_effects e source) fun stat m member spared =>
    ⟨m, ?_, .refl m⟩
  rw [get_dropModifiersOf]
  exact List.mem_filter.2 ⟨member, decide_eq_true fun owner => cause m owner spared⟩

/-! ### Trees that are changed -/

/-- The tree of a stack that is changed in its place, where the stack is nobody's or goes on. -/
theorem Spares.setStackCondition {id : Handle} {c : Condition π}
    (goes : ∀ s, e.stack? effect id = some s → s.isSourced = true → s.duration.Proceeds c) :
    e.Spares calls (e.setCondition (.stack effect id) c) := by
  refine .of_effect (fun live _ => ?_) (fun _ _ => rfl) fun live there s member sourced => ?_
  · apply map_modifyFirst
    exact fun _ _ => rfl
  · let test (s : Stack π) : Bool := s.id = id
    let change (s : Stack π) : Stack π := { s with duration := c }
    have parts : s ∈ modifyFirst test change live.held ∨
      live.held.find? test = some s ∧ change s ∈ modifyFirst test change live.held :=
        modifyFirst_of_mem member
    rcases parts with same | ⟨found, changed⟩
    · exact ⟨s, same, .refl s⟩
    · refine ⟨_, changed, c, s.active, goes s ?_ sourced, rfl⟩
      unfold Entity.stack?
      rw [there, Option.bind_some]
      exact found

/-- Events spare everything. -/
theorem Spares.stimulate (e : Entity π) (owner : Owner) (stimulus : Stimulus) (r : Readings) :
    e.Spares calls
      (e.setCondition owner (Engine.Stimulus.apply stimulus r (e.condition owner)).1) := by
  cases owner with
  | modifier stat id =>
      refine .modify fun m found => ⟨_, m.active, ?_, rfl⟩
      change m.duration.Proceeds (Engine.Stimulus.apply stimulus r
        (((e.modifiers.find? stat id).map Modifier.duration).getD .absent)).1
      rw [found]
      exact .step .refl stimulus r
  | stack effect id =>
      refine .setStackCondition fun s found _ => ?_
      change s.duration.Proceeds (Engine.Stimulus.apply stimulus r
        (((e.stack? effect id).map Stack.duration).getD .absent)).1
      rw [found]
      exact .step .refl stimulus r
  | custom effect serial index =>
      refine .of_effect (fun live _ => ?_) (fun live _ => ?_) fun live _ s member _ => ⟨s, ?_, .refl s⟩
      all_goals
        split
        · first | rfl | exact member
        · first | rfl | exact member

/-! ### Effects that come -/

theorem Spares.addEffect (tidy : e.Tidy) {d : EffectDefinition π}
    (absent : e.effects.contains d.effect = false) (armed : List (Condition π)) :
    e.Spares calls (e.acquireEffect.2.addEffect { e.acquireEffect.1 with effect := d.effect }
      armed) := by
  have missing : e.effects.get? d.effect = none := by
    rwa [Table.contains, Option.isSome_eq_false_iff, Option.isNone_iff_eq_none] at absent
  have effects (name : EffectName) :
      (e.acquireEffect.2.addEffect { e.acquireEffect.1 with effect := d.effect }
        armed).effects.get? name = if name = d.effect then
          some { LiveEffect.blank with
            serial := e.nextHandle, effect := d.effect, conditions := armed }
        else e.effects.get? name := by
    rw [addEffect_effects, Table.get?_insert, tidy.acquireEffect_fst]
    rfl
  have held (name : EffectName) : Entity.held (e.acquireEffect.2.addEffect
      { e.acquireEffect.1 with effect := d.effect } armed) name = e.held name := by
    unfold Entity.held
    rw [effects]
    split
    · rename_i here
      rw [here, missing]
      rfl
    · rfl
  refine ⟨fun name => by rw [held], fun name => ?_, fun name s member _ => ?_,
    fun stat m member _ => ?_⟩
  · unfold hasEffect
    rw [effects]
    split
    · rename_i here
      rw [here, missing]
      rfl
    · rfl
  · exact ⟨s, held name ▸ member, .refl s⟩
  · refine ⟨m, ?_, .refl m⟩
    rw [(addEffect_stats e.acquireEffect.2 _ armed).2]
    exact member

/-- Storing what counting found out spares everything if it does not flip the effect. -/
theorem Spares.storeCount {live : LiveEffect π} (found : e.effects.get? effect = some live)
    (count : UInt32) : e.Spares calls (e.storeCount effect count live.active) := by
  refine .of_effect (fun _ _ => rfl) (fun other there => ?_) fun _ _ s member _ => ⟨s, member, .refl s⟩
  rw [found] at there
  cases there
  rfl

/-! ### Changes of stacks -/

theorem Restacks.refl (e : Entity π) : e.Restacks calls effect e :=
  ⟨fun _ _ => rfl, fun _ => rfl, fun s member _ => ⟨s, member, .refl s⟩, rfl⟩

theorem Restacks.trans (first : e.Restacks calls effect e₁) (second : e₁.Restacks calls effect e₂) :
    e.Restacks calls effect e₂ := by
  refine ⟨fun name other => (second.others name other).trans (first.others name other),
    fun name => (second.active name).trans (first.active name), fun s member spared => ?_,
    second.modifiers.trans first.modifiers⟩
  obtain ⟨s₁, member₁, proceeds₁⟩ := first.held s member spared
  obtain ⟨s₂, member₂, proceeds₂⟩ := second.held s₁ member₁ (spared.proceeds proceeds₁)
  exact ⟨s₂, member₂, proceeds₁.trans proceeds₂⟩

/-- What touches neither modifiers nor effects is about no stacks. -/
theorem Restacks.of_same (modifiers : e'.modifiers = e.modifiers) (effects : e'.effects = e.effects) :
    e.Restacks calls effect e' := by
  have held (name : EffectName) : e'.held name = e.held name := by
    unfold Entity.held
    rw [effects]
  refine ⟨fun name _ => held name, fun name => ?_, fun s member _ => ⟨s, ?_, .refl s⟩, modifiers⟩
  · unfold hasEffect
    rw [effects]
  · rw [held]
    exact member

/-- What spares everything and touches one effect only. -/
theorem Restacks.of_spares (spares : e.Spares calls e')
    (others : ∀ name, name ≠ effect → e'.held name = e.held name)
    (modifiers : e'.modifiers = e.modifiers) : e.Restacks calls effect e' :=
  ⟨others, spares.active, fun s member spared => spares.held effect s member spared.isSourced,
    modifiers⟩

/-- What changes the stacks of a live effect and keeps those that the calls leave. -/
theorem Restacks.of_effect {change : LiveEffect π → LiveEffect π}
    (active : ∀ live, e.effects.get? effect = some live → (change live).active = live.active)
    (kept : ∀ live, e.effects.get? effect = some live → ∀ s ∈ live.held, s.Spared calls effect →
      ∃ s' ∈ (change live).held, s.Proceeds s') :
    e.Restacks calls effect (e.modifyEffect effect change) := by
  refine ⟨fun name other => ?_, fun name => ?_, fun s member spared => ?_, rfl⟩
  · rw [held_modifyEffect, if_neg other]
  · exact hasEffect_modifyEffect active
  · rw [held_modifyEffect, if_pos rfl]
    cases found : e.effects.get? effect with
    | none =>
        unfold Entity.held at member
        rw [found] at member
        cases member
    | some live =>
        rw [held_of_found found] at member
        exact kept live found s member spared

theorem Restacks.pushStack (e : Entity π) (effect : EffectName) (s : Stack π) :
    e.Restacks calls effect (e.pushStack effect s) := by
  have pushed : e.Restacks calls effect
      (e.modifyEffect effect fun live => { live with held := live.held ++ [s] }) :=
    .of_effect (fun _ _ => rfl) fun _ _ before member _ =>
      ⟨before, List.mem_append_left _ member, .refl before⟩
  exact pushed.trans (.of_same rfl rfl)

/-- A stack whose value changes is nobody's. -/
theorem Restacks.updateStack {id : Handle} {s : Stack π} (found : e.stack? effect id = some s)
    {value : UInt32} (owned : s.isSourced = true → value = s.value) :
    e.Restacks calls effect
      (e.updateStack effect id ({ s with value := value } : Stack π).refresh.1) := by
  refine .of_effect (fun _ _ => rfl) fun live there before member spared => ?_
  let test (s : Stack π) : Bool := s.id = id
  let after := ({ s with value := value } : Stack π).refresh.1
  have parts : before ∈ modifyFirst test (fun _ => after) live.held ∨
      live.held.find? test = some before ∧ after ∈ modifyFirst test (fun _ => after) live.held :=
    modifyFirst_of_mem member
  rcases parts with same | ⟨first, changed⟩
  · exact ⟨before, same, .refl before⟩
  · have same : s = before := by
      unfold Entity.stack? at found
      rw [there, Option.bind_some] at found
      exact Option.some.inj (found.symm.trans first)
    subst same
    obtain rfl : value = s.value := owned spared.isSourced
    exact ⟨after, changed, s.duration, after.active, .refl, rfl⟩

theorem Restacks.detachStack {id : Handle} (detached : e.detachStack? effect id = some e')
    (cause : ∀ s, e.stack? effect id = some s → ¬s.Spared calls effect) :
    e.Restacks calls effect e' := by
  obtain ⟨live, gone, there, stack, rfl⟩ := detachStack?_eq_some detached
  let rest : LiveEffect π := { live with held := live.held.eraseP fun s => s.id = id }
  have effects (name : EffectName) : (e.effects.insert effect rest).get? name =
      if name = effect then some rest else e.effects.get? name := Table.get?_insert ..
  refine ⟨fun name other => ?_, fun name => ?_, fun s member spared => ⟨s, ?_, .refl s⟩, rfl⟩
  · change (((e.effects.insert effect rest).get? name).map LiveEffect.held).getD [] = e.held name
    rw [effects, if_neg other]
    rfl
  · change ((e.effects.insert effect rest).get? name).any LiveEffect.active = _
    rw [effects]
    split
    · rename_i here
      unfold hasEffect
      rw [here, there]
      rfl
    · rfl
  · change s ∈ (((e.effects.insert effect rest).get? effect).map LiveEffect.held).getD []
    rw [effects, if_pos rfl]
    rw [held_of_found there] at member
    rcases List.mem_cons.1 ((perm_cons_eraseP (stack :)).mem_iff.1 member) with rfl | stays
    · refine absurd spared (cause s ?_)
      unfold Entity.stack?
      rw [there]
      exact stack
    · exact stays

/-- Stacks that go one by one are no stacks that the calls leave. -/
theorem Restacks.detachStacks (tidy : e.Tidy) {ids : List Handle}
    (cause : ∀ s ∈ e.held effect, s.id ∈ ids → ¬s.Spared calls effect) :
    e.Restacks calls effect (e.detachStacks effect ids).2 := by
  have fewer : e.Restacks calls effect (e.modifyEffect effect fun live => live.without ids) := by
    refine .of_effect (fun _ _ => rfl) fun live there s member spared => ⟨s, ?_, .refl s⟩
    refine List.mem_filter.2 ⟨member, decide_eq_true fun listed => ?_⟩
    exact cause s (held_of_found there ▸ member) listed spared
  refine fewer.trans (.of_same ?_ (tidy.effects_detachStacks effect ids))
  refine detachStacks_induct (motive := fun e' => e'.modifiers = e.modifiers) effect
    (fun _ e' _ detached same => ?_) ids rfl
  obtain ⟨live, s, -, -, rfl⟩ := detachStack?_eq_some detached
  exact same

/-- Stacks take the place of the earlier ones with all those that the calls leave. -/
theorem Restacks.setStacks {live : LiveEffect π} {held : List (Stack π)}
    (found : e.effects.get? effect = some live)
    (kept : ∀ s ∈ live.held, s.isSourced = true → s ∈ held) :
    e.Restacks calls effect (e.setStacks effect held) := by
  refine .of_effect (fun _ _ => rfl) fun other there s member spared => ⟨s, ?_, .refl s⟩
  rw [found] at there
  cases there
  exact kept s member spared.isSourced

/-! ### Effects that flip and go -/

omit [CustomTrigger π] in
theorem held_storeCount (e : Entity π) (effect name : EffectName) (count : UInt32) (active : Bool) :
    (e.storeCount effect count active).held name = e.held name := by
  unfold storeCount
  rw [held_modifyEffect]
  split
  · rename_i here
    subst here
    rfl
  · rfl

omit [CustomTrigger π] in
theorem hasEffect_storeCount {live : LiveEffect π} (found : e.effects.get? effect = some live)
    (name : EffectName) (count : UInt32) (active : Bool) :
    (e.storeCount effect count active).hasEffect name =
      if name = effect then active else e.hasEffect name := by
  unfold hasEffect storeCount
  rw [get?_modifyEffect]
  split
  · rename_i here
    rw [here, found]
    rfl
  · rfl

omit [CustomTrigger π] in
theorem held_dropEffect (e : Entity π) (effect name : EffectName) (live : LiveEffect π) :
    (e.dropEffect effect live).held name = if name = effect then [] else e.held name := by
  unfold held
  rw [dropEffect_effects, Table.get?_erase]
  split
  · rfl
  · rfl

omit [CustomTrigger π] in
theorem hasEffect_dropEffect (e : Entity π) (effect name : EffectName) (live : LiveEffect π) :
    (e.dropEffect effect live).hasEffect name =
      if name = effect then false else e.hasEffect name := by
  unfold hasEffect
  rw [dropEffect_effects, Table.get?_erase]
  split
  · rfl
  · rfl

end Entity

end StatusEffects
