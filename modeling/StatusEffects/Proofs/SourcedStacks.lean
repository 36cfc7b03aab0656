import StatusEffects.Proofs.Sparing

/-!
Who owns which stacks.

The deed of a stack that somebody owns is its handle, its owner and its value. Whatever the engine does
by itself, and whatever a call does that is about another effect, leaves the deeds of an effect as they
are and in their order: only durations go on, and only stacks that nobody owns come, go or change.

Here this is said of one change of an entity after the other, with a leeway for the effects that a call
is about and for stats that are set.
-/

set_option autoImplicit false

namespace StatusEffects

variable {π : Type}

/-- The handle, the owner and the value of a stack that somebody owns. -/
structure Deed where
  id : Handle
  source : SourceTag
  value : UInt32
deriving DecidableEq, Repr

def Stack.deed? (s : Stack π) : Option Deed := s.source.map fun source => ⟨s.id, source, s.value⟩

def Entity.deeds (e : Entity π) (effect : EffectName) : List Deed :=
  (e.held effect).filterMap Stack.deed?

/-- What may happen besides what the engine does by itself. -/
structure Leeway where
  /-- The effects whose deeds may change. -/
  effects : EffectName → Prop
  /-- Whether stats may be set. -/
  sets : Prop

structure Entity.Leaves (leeway : Leeway) (e e' : Entity π) : Prop where
  modifying : leeway.sets ∨ e'.modifying = e.modifying
  deeds : ∀ effect, leeway.effects effect ∨ e'.deeds effect = e.deeds effect

def Entity.Discreet (leeway : Leeway) (e e' : Entity π) : Prop :=
  e.Tidy → e'.Tidy ∧ e.Leaves leeway e'

/-! ### Deeds of lists of stacks -/

theorem filterMap_deed?_of_map {list list' : List (Stack π)}
    (same : list'.map Stack.deed? = list.map Stack.deed?) :
    list'.filterMap Stack.deed? = list.filterMap Stack.deed? := by
  have parts (list : List (Stack π)) :
      list.filterMap Stack.deed? = (list.map Stack.deed?).filterMap id := by
    rw [List.filterMap_map]
    rfl
  rw [parts, parts, same]

theorem filterMap_deed?_of_outline {list list' : List (Stack π)}
    (same : list'.map Stack.outline = list.map Stack.outline) :
    list'.filterMap Stack.deed? = list.filterMap Stack.deed? := by
  have parts (list : List (Stack π)) :
      list.map Stack.deed? = (list.map Stack.outline).map Stack.deed? := by
    rw [List.map_map]
    rfl
  apply filterMap_deed?_of_map
  rw [parts list', same, ← parts list]

/-- Stacks that go and that nobody owns take no deed with them. -/
theorem filterMap_deed?_filter {list : List (Stack π)} {stays : Stack π → Bool}
    (gone : ∀ s ∈ list, stays s = false → s.source = none) :
    (list.filter stays).filterMap Stack.deed? = list.filterMap Stack.deed? := by
  induction list with
  | nil => rfl
  | cons s rest ih =>
      have later := ih fun other member => gone other (List.mem_cons_of_mem _ member)
      cases stay : stays s with
      | true => rw [List.filter_cons_of_pos stay, List.filterMap_cons, List.filterMap_cons, later]
      | false =>
          have none : s.deed? = none := by
            unfold Stack.deed?
            rw [gone s (List.mem_cons_self ..) stay]
            rfl
          rw [List.filter_cons_of_neg (by rw [stay]; exact Bool.false_ne_true),
            List.filterMap_cons_none none, later]

namespace Entity

variable {leeway : Leeway} {e e₁ e₂ : Entity π} {effect : EffectName}

theorem deeds_of_held (same : e₁.held effect = e.held effect) : e₁.deeds effect = e.deeds effect :=
  congrArg (List.filterMap Stack.deed?) same

theorem deeds_of_found {live : LiveEffect π} (found : e.effects.get? effect = some live) :
    e.deeds effect = live.held.filterMap Stack.deed? := by
  unfold deeds
  rw [held_of_found found]

theorem deeds_of_absent (absent : e.effects.get? effect = none) : e.deeds effect = [] := by
  unfold deeds held
  rw [absent]
  rfl

theorem Leaves.refl (e : Entity π) : e.Leaves leeway e := ⟨.inr rfl, fun _ => .inr rfl⟩

theorem Leaves.trans (first : e.Leaves leeway e₁) (second : e₁.Leaves leeway e₂) :
    e.Leaves leeway e₂ := by
  constructor
  · rcases first.modifying with may | same
    · exact .inl may
    · rcases second.modifying with may | same'
      · exact .inl may
      · exact .inr (same'.trans same)
  · intro effect
    rcases first.deeds effect with may | same
    · exact .inl may
    · rcases second.deeds effect with may | same'
      · exact .inl may
      · exact .inr (same'.trans same)

theorem Discreet.trans (first : e.Discreet leeway e₁) (second : e₁.Discreet leeway e₂) :
    e.Discreet leeway e₂ := by
  intro tidy
  obtain ⟨tidy₁, leaves⟩ := first tidy
  obtain ⟨tidy₂, later⟩ := second tidy₁
  exact ⟨tidy₂, leaves.trans later⟩

/-- What is no part of the live effects may change. -/
theorem Discreet.of_same (tidy : e.Tidy → e₁.Tidy) (modifying : e₁.modifying = e.modifying)
    (effects : e₁.effects = e.effects) : e.Discreet leeway e₁ := by
  intro before
  refine ⟨tidy before, .inr modifying, fun effect => .inr (deeds_of_held ?_)⟩
  unfold held
  rw [effects]

/-- A change of one effect that keeps its deeds, or whose deeds may change. -/
theorem Discreet.of_modify {change : LiveEffect π → LiveEffect π}
    (tidy : e.Tidy → (e.modifyEffect effect change).Tidy)
    (here : leeway.effects effect ∨ (e.Tidy → ∀ live, e.effects.get? effect = some live →
      (change live).held.filterMap Stack.deed? = live.held.filterMap Stack.deed?)) :
    e.Discreet leeway (e.modifyEffect effect change) := by
  intro before
  refine ⟨tidy before, .inr rfl, fun name => ?_⟩
  by_cases other : name = effect
  · subst other
    refine here.imp_right fun same => ?_
    unfold deeds
    rw [held_modifyEffect, if_pos rfl]
    cases found : e.effects.get? name with
    | none =>
        unfold held
        rw [found]
        rfl
    | some live =>
        rw [held_of_found found]
        exact same before live found
  · exact .inr (deeds_of_held (by rw [held_modifyEffect, if_neg other]))

/-! ### Pools and modifiers -/

theorem Discreet.takeHandle (e : Entity π) : e.Discreet leeway e.takeHandle.2 :=
  .of_same Tidy.takeHandle rfl rfl

theorem Discreet.subscribe (e : Entity π) (owner : Owner) (interests : Interests) :
    e.Discreet leeway (e.subscribe owner interests) :=
  .of_same (fun tidy => tidy.subscribe owner interests) rfl rfl

theorem Discreet.addModifier [CustomTrigger π] (e : Entity π) (operators : OperatorTable)
    {m : Modifier π} (new : m.id = e.nextHandle) :
    e.Discreet leeway (e.takeHandle.2.addModifier operators m) :=
  .of_same (fun tidy => tidy.addNewModifier operators new) rfl rfl

theorem Discreet.updateModifier {stat : StatName} {id : Handle} {m : Modifier π}
    (found : e.modifiers.find? stat id = some m) :
    e.Discreet leeway (e.updateModifier stat id m.refresh.1) := by
  refine .of_same (fun tidy => ?_) rfl rfl
  have handle : m.refresh.1.id = id := of_decide_eq_true (List.find?_some found :)
  exact tidy.updateModifier (tidy.filed stat m (List.mem_of_find?_eq_some found)) handle

theorem Discreet.dropModifier {stat : StatName} {id : Handle}
    (dropped : e.dropModifier? stat id = some e₁) : e.Discreet leeway e₁ := by
  refine .of_same (fun tidy => tidy.dropModifier? dropped) ?_ ?_
  · obtain ⟨_, -, rfl⟩ := Option.map_eq_some_iff.1 dropped
    rfl
  · obtain ⟨_, -, rfl⟩ := Option.map_eq_some_iff.1 dropped
    rfl

theorem dropModifiersOf_modifying (e : Entity π) (source : SourceTag) :
    (e.dropModifiersOf source).modifying = e.modifying :=
  List.foldlRecOn (motive := fun e' : Entity π => e'.modifying = e.modifying)
    (e.modifiers.removeSource source).1 _ rfl fun _ same _ _ => same

theorem Discreet.dropModifiersOf (e : Entity π) (source : SourceTag) :
    e.Discreet leeway (e.dropModifiersOf source) :=
  .of_same (fun tidy => tidy.dropModifiersOf source) (dropModifiersOf_modifying e source)
    (dropModifiersOf_effects e source)

/-! ### Durations -/

/-- A duration may go on or give way to another one. -/
theorem Discreet.setCondition (e : Entity π) (owner : Owner) (c : Condition π) :
    e.Discreet leeway (e.setCondition owner c) := by
  cases owner with
  | modifier stat id => exact .of_same (fun tidy => tidy.setCondition _ c) rfl rfl
  | stack effect id =>
      refine .of_modify (fun tidy => tidy.setCondition (.stack effect id) c)
        (.inr fun _ live _ => filterMap_deed?_of_map ?_)
      apply map_modifyFirst
      exact fun _ _ => rfl
  | custom effect serial index =>
      refine .of_modify (fun tidy => tidy.setCondition (.custom effect serial index) c)
        (.inr fun _ live _ => ?_)
      dsimp only
      split
      · rfl
      · rfl

/-! ### Stacks -/

/-- A stack is brought up to date. -/
theorem Discreet.refreshStack {id : Handle} {s : Stack π} (found : e.stack? effect id = some s) :
    e.Discreet leeway (e.updateStack effect id s.refresh.1) := by
  obtain ⟨live, there, stack⟩ := Option.bind_eq_some_iff.1 found
  have handle : s.id = id := LiveEffect.id_of_stack? stack
  refine .of_modify (fun tidy => tidy.updateStack effect handle) (.inr fun _ other found' => ?_)
  rw [there] at found'
  cases found'
  exact filterMap_deed?_of_map (map_modifyFirst_of_found stack rfl)

/-- A stack of an effect whose deeds may change gives way to another one with its handle. -/
theorem Discreet.updateStack {id : Handle} {s : Stack π} (may : leeway.effects effect)
    (handle : s.id = id) : e.Discreet leeway (e.updateStack effect id s) :=
  .of_modify (fun tidy => tidy.updateStack effect handle) (.inl may)

theorem Discreet.pushStack [CustomTrigger π] (may : leeway.effects effect) {s : Stack π}
    (new : s.id = e.nextHandle) : e.Discreet leeway (e.takeHandle.2.pushStack effect s) := by
  intro tidy
  have spare : e.takeHandle.2.Spare s.id := new ▸ tidy.spare
  refine ⟨tidy.takeHandle.pushStack spare, .inr rfl, fun name => ?_⟩
  by_cases other : name = effect
  · exact .inl (other ▸ may)
  · right
    have elsewhere : (e.takeHandle.2.pushStack effect s).held name = e.held name :=
      (held_modifyEffect (fun live => { live with held := live.held ++ [s] }) name).trans
        (if_neg other)
    exact deeds_of_held elsewhere

/-- Without certain stacks that nobody owns an effect has the same deeds. -/
theorem filterMap_deed?_without {live : LiveEffect π} {ids : List Handle}
    (gone : ∀ s ∈ live.held, s.id ∈ ids → s.source = none) :
    (live.without ids).held.filterMap Stack.deed? = live.held.filterMap Stack.deed? := by
  apply filterMap_deed?_filter
  intro s member leaves
  exact gone s member (by simpa using leaves)

theorem detachStacks_modifying (e : Entity π) (effect : EffectName) (ids : List Handle) :
    (e.detachStacks effect ids).2.modifying = e.modifying := by
  refine detachStacks_induct (motive := fun e' => e'.modifying = e.modifying) effect
    (fun _ e' _ detached same => ?_) ids rfl
  obtain ⟨_, _, -, -, rfl⟩ := detachStack?_eq_some detached
  exact same

/-- Stacks go that nobody owns, or of an effect whose deeds may change. -/
theorem Discreet.detachStacks (e : Entity π) {ids : List Handle}
    (here : leeway.effects effect ∨ (e.Tidy → ∀ live, e.effects.get? effect = some live →
      ∀ s ∈ live.held, s.id ∈ ids → s.source = none)) :
    e.Discreet leeway (e.detachStacks effect ids).2 := by
  have fewer : e.Discreet leeway (e.modifyEffect effect fun live => live.without ids) :=
    .of_modify (fun tidy => tidy.modifyEffect fun _ _ before => before.filter _)
      (here.imp_right fun gone tidy live found => filterMap_deed?_without (gone tidy live found))
  intro tidy
  have same (name : EffectName) : (e.detachStacks effect ids).2.deeds name =
      (e.modifyEffect effect fun live => live.without ids).deeds name := by
    apply deeds_of_held
    unfold held
    rw [tidy.effects_detachStacks]
    rfl
  refine ⟨tidy.detachStacks effect ids, .inr (detachStacks_modifying e effect ids), fun name => ?_⟩
  rw [same]
  exact (fewer tidy).2.deeds name

/-- A stack goes that nobody owns, or of an effect whose deeds may change. -/
theorem Discreet.detachStack {id : Handle} (detached : e.detachStack? effect id = some e₁)
    (here : leeway.effects effect ∨ ∀ s, e.stack? effect id = some s → s.source = none) :
    e.Discreet leeway e₁ := by
  have alone : (e.detachStacks effect [id]).2 = e₁ := by
    rw [Entity.detachStacks, detached]
    rfl
  rw [← alone]
  refine .detachStacks e (here.imp_right fun unowned tidy live found s member listed => ?_)
  apply unowned s
  unfold stack?
  rw [found, Option.bind_some]
  rw [← List.mem_singleton.1 listed]
  exact (tidy.effects effect live found).stack?_of_held member

/-- All stacks go that nobody owns. -/
theorem Discreet.drain {live : LiveEffect π} (found : e.effects.get? effect = some live) :
    e.Discreet leeway (e.detachStacks effect live.sourcelessStacks).2 := by
  refine .detachStacks e (.inr fun tidy other there s member listed => ?_)
  rw [found] at there
  cases there
  obtain ⟨s', member', same⟩ := List.mem_map.1 listed
  obtain ⟨held, unowned⟩ := List.mem_filter.1 member'
  have equal : s' = s := (tidy.effects effect live found).unique held member same
  rw [equal] at unowned
  unfold Stack.isSourced at unowned
  simpa using unowned

/-- Amounts are taken off the stacks of an effect whose deeds may change. -/
theorem Discreet.setStacks (may : leeway.effects effect) {live : LiveEffect π}
    {held : List (Stack π)} (found : e.effects.get? effect = some live)
    (drawn : List.Forall₂ Stack.Drawn held live.held) : e.Discreet leeway (e.setStacks effect held) :=
  .of_modify (fun tidy => tidy.setDrawn found drawn) (.inl may)

/-! ### Effects -/

theorem Discreet.storeCount (e : Entity π) (effect : EffectName) (count : UInt32) (active : Bool) :
    e.Discreet leeway (e.storeCount effect count active) :=
  .of_modify (fun tidy => tidy.storeCount effect count active) (.inr fun _ _ _ => rfl)

theorem addEffect_modifying [CustomTrigger π] (e : Entity π) (live : LiveEffect π)
    (armed : List (Condition π)) : (e.addEffect live armed).modifying = e.modifying :=
  List.foldlRecOn (motive := fun e' : Entity π => e'.modifying = e.modifying) armed.zipIdx _ rfl
    fun _ same _ _ => same

/-- An effect becomes live without stacks. -/
theorem Discreet.addEffect [CustomTrigger π] {d : EffectDefinition π}
    (absent : e.effects.contains d.effect = false) (armed : List (Condition π)) :
    e.Discreet leeway (e.acquireEffect.2.addEffect { e.acquireEffect.1 with effect := d.effect }
      armed) := by
  intro tidy
  refine ⟨tidy.addNewEffect d.effect armed, .inr ?_, fun name => .inr ?_⟩
  · exact addEffect_modifying e.acquireEffect.2 _ armed
  · have spares : Spares (fun _ => False) _ _ := .addEffect tidy absent armed
    exact filterMap_deed?_of_outline (spares.outlines name)

theorem dropEffect_modifying (e : Entity π) (effect : EffectName) (live : LiveEffect π) :
    (e.dropEffect effect live).modifying = e.modifying := by
  have unheld := List.foldlRecOn (motive := fun e' : Entity π => e'.modifying = e.modifying)
    live.held (fun e s => e.unsubscribe (.stack effect s.id))
    (b := { e with effects := e.effects.erase effect }) rfl fun _ same _ _ => same
  exact List.foldlRecOn (motive := fun e' : Entity π => e'.modifying = e.modifying)
    (List.range live.conditions.length)
    (fun e index => e.unsubscribe (.custom effect live.serial index)) unheld
    fun _ same _ _ => same

/-- An effect goes that holds no stacks, or whose deeds may change. -/
theorem Discreet.dropEffect {live : LiveEffect π} (found : e.effects.get? effect = some live)
    (here : leeway.effects effect ∨ live.held = []) :
    e.Discreet leeway (e.dropEffect effect live) := by
  intro tidy
  refine ⟨tidy.dropEffect effect live, .inr (dropEffect_modifying e effect live), fun name => ?_⟩
  by_cases other : name = effect
  · subst other
    refine here.imp_right fun empty => deeds_of_held ?_
    rw [held_dropEffect, if_pos rfl, held_of_found found, empty]
  · exact .inr (deeds_of_held (by rw [held_dropEffect, if_neg other]))

end Entity

end StatusEffects
