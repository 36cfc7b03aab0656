import StatusEffects.Entity.Change

/-!
Bookkeeping that holds of an entity at every moment: what waits in a pool is blank, every entry
stands where its own data say, and no two entries of one list share a handle.

Each quiet change keeps it, so nothing here depends on the order in which the engine makes them.
-/

set_option autoImplicit false

namespace StatusEffects

variable {π : Type}

structure LiveEffect.Tidy (name : EffectName) (next : Handle) (live : LiveEffect π) : Prop where
  filed : live.effect = name
  numbered : live.serial < next
  distinct : (live.held.map Stack.id).Nodup
  given : ∀ s ∈ live.held, s.id < next

structure Entity.Tidy (e : Entity π) : Prop where
  modifierPool : e.modifierPool.Blank
  stackPool : e.stackPool.Blank
  effectPool : e.effectPool.Blank
  filed : ∀ stat, ∀ m ∈ e.modifiers.get stat, m.stat = stat
  given : ∀ stat, ∀ m ∈ e.modifiers.get stat, m.id < e.nextHandle
  distinct : ∀ stat, ((e.modifiers.get stat).map Modifier.id).Nodup
  effects : ∀ name live, e.effects.get? name = some live → live.Tidy name e.nextHandle

theorem LiveEffect.Tidy.mono {name : EffectName} {next later : Handle} {live : LiveEffect π}
    (tidy : live.Tidy name next) (le : next ≤ later) : live.Tidy name later :=
  { tidy with
    numbered := Nat.lt_of_lt_of_le tidy.numbered le
    given := fun s member => Nat.lt_of_lt_of_le (tidy.given s member) le }

theorem LiveEffect.Tidy.filter {name : EffectName} {next : Handle} {live : LiveEffect π}
    (tidy : live.Tidy name next) (keep : Stack π → Bool) :
    LiveEffect.Tidy name next { live with held := live.held.filter keep } where
  filed := tidy.filed
  numbered := tidy.numbered
  distinct := tidy.distinct.sublist (List.filter_sublist.map _)
  given s member := tidy.given s (List.mem_filter.1 member).1

/-- Changing stacks one by one without their handles keeps them in order. -/
theorem LiveEffect.Tidy.sameHandles {name : EffectName} {next : Handle} {live : LiveEffect π}
    (tidy : live.Tidy name next) {held : List (Stack π)}
    (same : held.map Stack.id = live.held.map Stack.id) :
    LiveEffect.Tidy name next { live with held := held } where
  filed := tidy.filed
  numbered := tidy.numbered
  distinct := by
    rw [same]
    exact tidy.distinct
  given s member := by
    have handle : s.id ∈ live.held.map Stack.id := by
      rw [← same]
      exact List.mem_map_of_mem member
    obtain ⟨other, present, equal⟩ := List.mem_map.1 handle
    rw [← equal]
    exact tidy.given other present

/-- A stack of a live effect is told apart by its handle. -/
theorem LiveEffect.Tidy.unique {name : EffectName} {next : Handle} {live : LiveEffect π}
    (tidy : live.Tidy name next) {s other : Stack π} (member : s ∈ live.held)
    (present : other ∈ live.held) (same : s.id = other.id) : s = other := by
  have first := (find?_eq_some_iff_of_nodup tidy.distinct other.id s).2 ⟨member, same⟩
  have second := (find?_eq_some_iff_of_nodup tidy.distinct other.id other).2 ⟨present, rfl⟩
  exact Option.some.inj (first.symm.trans second)

theorem LiveEffect.Tidy.stack?_of_held {name : EffectName} {next : Handle} {live : LiveEffect π}
    (tidy : live.Tidy name next) {s : Stack π} (member : s ∈ live.held) :
    live.stack? s.id = some s :=
  (find?_eq_some_iff_of_nodup tidy.distinct s.id s).2 ⟨member, rfl⟩

def LiveEffect.without (live : LiveEffect π) (ids : List Handle) : LiveEffect π :=
  { live with held := live.held.filter fun s => s.id ∉ ids }

namespace Entity

variable {e : Entity π}

theorem Tidy.new : (new : Entity π).Tidy where
  modifierPool := .empty
  stackPool := .empty
  effectPool := .empty
  filed _ _ member := (List.not_mem_nil member).elim
  given _ _ member := (List.not_mem_nil member).elim
  distinct _ := .nil
  effects _ _ found := by cases found

theorem Tidy.find?_of_mem (tidy : e.Tidy) {stat : StatName} {m : Modifier π}
    (member : m ∈ e.modifiers.get stat) : e.modifiers.find? stat m.id = some m :=
  (find?_eq_some_iff_of_nodup (tidy.distinct stat) m.id m).2 ⟨member, rfl⟩

/-! ### Subscriptions and values -/

theorem Tidy.subscribe (tidy : e.Tidy) (owner : Owner) (interests : Interests) :
    (e.subscribe owner interests).Tidy :=
  { tidy with }

theorem Tidy.unsubscribe (tidy : e.Tidy) (owner : Owner) : (e.unsubscribe owner).Tidy :=
  { tidy with }

/-! ### Handles and pools -/

theorem Tidy.raise (tidy : e.Tidy) {next : Handle} (le : e.nextHandle ≤ next) :
    Tidy { e with nextHandle := next } :=
  { tidy with
    given := fun stat m member => Nat.lt_of_lt_of_le (tidy.given stat m member) le
    effects := fun name live found => (tidy.effects name live found).mono le }

theorem Tidy.takeHandle (tidy : e.Tidy) : e.takeHandle.2.Tidy :=
  tidy.raise (Nat.le_succ _)

theorem Tidy.acquireModifier_fst (tidy : e.Tidy) : e.acquireModifier.1 = .blank :=
  tidy.modifierPool.acquire_fst

theorem Tidy.acquireModifier (tidy : e.Tidy) : e.acquireModifier.2.Tidy :=
  { tidy with modifierPool := tidy.modifierPool.acquire_snd }

theorem Tidy.releaseModifier (tidy : e.Tidy) (m : Modifier π) : (e.releaseModifier m).Tidy :=
  { tidy with modifierPool := tidy.modifierPool.release rfl }

theorem Tidy.acquireStack_fst (tidy : e.Tidy) : e.acquireStack.1 = .blank :=
  tidy.stackPool.acquire_fst

theorem Tidy.acquireStack (tidy : e.Tidy) : e.acquireStack.2.Tidy :=
  { tidy with stackPool := tidy.stackPool.acquire_snd }

theorem Tidy.releaseStack (tidy : e.Tidy) (s : Stack π) : (e.releaseStack s).Tidy :=
  { tidy with stackPool := tidy.stackPool.release rfl }

theorem Tidy.acquireEffect_fst (tidy : e.Tidy) :
    e.acquireEffect.1 = { LiveEffect.blank with serial := e.nextHandle } := by
  unfold Entity.acquireEffect
  rw [tidy.effectPool.acquire_fst, tidy.stackPool.acquireList_fst]
  rfl

theorem Tidy.acquireEffect (tidy : e.Tidy) : e.acquireEffect.2.Tidy :=
  { tidy.raise (Nat.le_succ _) with
    effectPool := tidy.effectPool.acquire_snd
    stackPool := tidy.stackPool.acquireList_snd }

/-! ### Modifiers -/

theorem Tidy.addModifier [CustomTrigger π] (tidy : e.Tidy) (operators : OperatorTable)
    {m : Modifier π} (given : m.id < e.nextHandle)
    (unused : ∀ other ∈ e.modifiers.get m.stat, other.id ≠ m.id) :
    (e.addModifier operators m).Tidy := by
  have member_iff (stat : StatName) (other : Modifier π) :
      other ∈ (e.modifiers.insert operators m).get stat ↔
        (stat = m.stat ∧ other = m) ∨ other ∈ e.modifiers.get stat := by
    rw [ModifierLists.get_insert]
    split
    · rename_i same
      rw [(ModifierLists.place_perm operators m _).mem_iff, List.mem_cons]
      simp [same]
    · rename_i different
      simp [different]
  apply Tidy.subscribe
  exact
    { tidy with
      filed := fun stat other member => by
        rcases (member_iff stat other).1 member with ⟨rfl, rfl⟩ | before
        · rfl
        · exact tidy.filed stat other before
      given := fun stat other member => by
        rcases (member_iff stat other).1 member with ⟨_, rfl⟩ | before
        · exact given
        · exact tidy.given stat other before
      distinct := fun stat => by
        change (((e.modifiers.insert operators m).get stat).map Modifier.id).Nodup
        rw [ModifierLists.get_insert]
        split
        · rename_i same
          subst same
          rw [((ModifierLists.place_perm operators m _).map Modifier.id).nodup_iff, List.map_cons,
            List.nodup_cons]
          refine ⟨fun present => ?_, tidy.distinct _⟩
          obtain ⟨other, member, equal⟩ := List.mem_map.1 present
          exact unused other member equal
        · exact tidy.distinct stat }

theorem Tidy.addNewModifier [CustomTrigger π] (tidy : e.Tidy) (operators : OperatorTable)
    {m : Modifier π} (new : m.id = e.nextHandle) :
    (e.takeHandle.2.addModifier operators m).Tidy := by
  refine tidy.takeHandle.addModifier operators ?_ fun other member equal => ?_
  · rw [new]
    exact Nat.lt_succ_self _
  · have given := tidy.given _ other member
    rw [equal, new] at given
    exact Nat.lt_irrefl _ given

theorem Tidy.updateModifier (tidy : e.Tidy) {stat : StatName} {id : Handle} {m : Modifier π}
    (filed : m.stat = stat) (same : m.id = id) : (e.updateModifier stat id m).Tidy := by
  have handles (other : StatName) :
      ((e.modifiers.modify stat id fun _ => m).get other).map Modifier.id =
        (e.modifiers.get other).map Modifier.id := by
    rw [ModifierLists.get_modify]
    split
    · exact map_key_modifyFirst (fun _ _ => same) _
    · rfl
  exact
    { tidy with
      filed := fun other x member => by
        change x ∈ (e.modifiers.modify stat id fun _ => m).get other at member
        rw [ModifierLists.get_modify] at member
        split at member
        · rename_i there
          rcases mem_modifyFirst member with before | ⟨_, _, rfl⟩
          · exact tidy.filed other x before
          · exact filed.trans there.symm
        · exact tidy.filed other x member
      given := fun other x member => by
        have handle : x.id ∈ (e.modifiers.get other).map Modifier.id := by
          rw [← handles]
          exact List.mem_map_of_mem member
        obtain ⟨y, present, equal⟩ := List.mem_map.1 handle
        rw [← equal]
        exact tidy.given other y present
      distinct := fun other => by
        change (((e.modifiers.modify stat id fun _ => m).get other).map Modifier.id).Nodup
        rw [handles]
        exact tidy.distinct other }

theorem find?_updateModifier {stat : StatName} {id : Handle} {m m' : Modifier π}
    (found : e.modifiers.find? stat id = some m) (same : m'.id = id) :
    (e.updateModifier stat id m').modifiers.find? stat id = some m' := by
  change (e.modifiers.modify stat id fun _ => m').find? stat id = some m'
  rw [ModifierLists.find?_modify fun _ _ => same, found, Option.map_some]

theorem modifiers_modify_eq_self {stat : StatName} {id : Handle} {m : Modifier π}
    {change : Modifier π → Modifier π} (found : e.modifiers.find? stat id = some m)
    (same : change m = m) : e.modifiers.modify stat id change = e.modifiers := by
  unfold ModifierLists.modify
  rw [Table.modify_eq_self fun list listed => ?_]
  rw [ModifierLists.find?, ModifierLists.get, listed, Option.getD_some] at found
  exact modifyFirst_eq_self found same

theorem updateModifier_self {stat : StatName} {id : Handle} {m : Modifier π}
    (found : e.modifiers.find? stat id = some m) : e.updateModifier stat id m = e := by
  rw [updateModifier, modifiers_modify_eq_self found rfl]

/-- Modifiers may be taken out in any way that keeps the others in their order. -/
theorem Tidy.sublists (tidy : e.Tidy) {modifiers : ModifierLists π}
    (fewer : ∀ stat, (modifiers.get stat).Sublist (e.modifiers.get stat)) :
    Tidy { e with modifiers := modifiers } :=
  { tidy with
    filed := fun stat m member => tidy.filed stat m ((fewer stat).subset member)
    given := fun stat m member => tidy.given stat m ((fewer stat).subset member)
    distinct := fun stat => (tidy.distinct stat).sublist ((fewer stat).map _) }

theorem Tidy.dropModifier? (tidy : e.Tidy) {e' : Entity π} {stat : StatName} {id : Handle}
    (dropped : e.dropModifier? stat id = some e') : e'.Tidy := by
  obtain ⟨⟨m, modifiers⟩, removed, rfl⟩ := Option.map_eq_some_iff.1 dropped
  apply Tidy.releaseModifier
  apply Tidy.unsubscribe
  apply tidy.sublists
  intro other
  rw [ModifierLists.get_remove? removed]
  split
  · exact List.eraseP_sublist
  · exact List.Sublist.refl _

theorem dropModifier?_eq_none {stat : StatName} {id : Handle} :
    e.dropModifier? stat id = none ↔ e.modifiers.find? stat id = none := by
  unfold Entity.dropModifier?
  rw [Option.map_eq_none_iff, ModifierLists.remove?_eq_none]

/-- What is taken out by its handle was there. -/
theorem Tidy.given_of_dropModifier? (tidy : e.Tidy) {e' : Entity π} {stat : StatName} {id : Handle}
    (dropped : e.dropModifier? stat id = some e') : id < e.nextHandle := by
  cases found : e.modifiers.find? stat id with
  | none =>
      rw [dropModifier?_eq_none.2 found] at dropped
      cases dropped
  | some m =>
      have handle : m.id = id := of_decide_eq_true (List.find?_some found :)
      rw [← handle]
      exact tidy.given stat m (List.mem_of_find?_eq_some found)

theorem Tidy.retireModifiers (tidy : e.Tidy) (removed : List (Modifier π)) :
    (e.retireModifiers removed).Tidy := by
  exact List.foldlRecOn removed _ tidy fun _ before _ _ =>
    (before.unsubscribe _).releaseModifier _

theorem Tidy.dropModifiersOf (tidy : e.Tidy) (source : SourceTag) :
    (e.dropModifiersOf source).Tidy := by
  apply Tidy.retireModifiers
  apply tidy.sublists
  intro stat
  rw [ModifierLists.get_removeSource]
  exact List.filter_sublist

/-! ### Stacks -/

theorem get?_modifyEffect (e : Entity π) (effect name : EffectName)
    (change : LiveEffect π → LiveEffect π) :
    (e.modifyEffect effect change).effects.get? name =
      if name = effect then (e.effects.get? name).map change else e.effects.get? name :=
  Table.get?_modify ..

theorem get?_modifyEffect_self {effect : EffectName} {live : LiveEffect π}
    (found : e.effects.get? effect = some live) (change : LiveEffect π → LiveEffect π) :
    (e.modifyEffect effect change).effects.get? effect = some (change live) := by
  rw [get?_modifyEffect, if_pos rfl, found, Option.map_some]

theorem get?_storeCount {effect : EffectName} {live : LiveEffect π}
    (found : e.effects.get? effect = some live) (count : UInt32) (active : Bool) :
    (e.storeCount effect count active).effects.get? effect =
      some { live with count := count, active := active } :=
  get?_modifyEffect_self found _

theorem hasEffect_modifyEffect {effect name : EffectName} {change : LiveEffect π → LiveEffect π}
    (same : ∀ live, e.effects.get? name = some live → (change live).active = live.active) :
    (e.modifyEffect name change).hasEffect effect = e.hasEffect effect := by
  unfold hasEffect
  rw [get?_modifyEffect]
  split
  · rename_i here
    subst here
    cases there : e.effects.get? effect with
    | none => rfl
    | some live => exact same live there
  · rfl

theorem Tidy.modifyEffect (tidy : e.Tidy) {effect : EffectName}
    {change : LiveEffect π → LiveEffect π}
    (keeps : ∀ live, e.effects.get? effect = some live → live.Tidy effect e.nextHandle →
      (change live).Tidy effect e.nextHandle) :
    (e.modifyEffect effect change).Tidy :=
  { tidy with
    effects := fun name live found => by
      rw [get?_modifyEffect] at found
      split at found
      · rename_i same
        subst same
        obtain ⟨before, there, rfl⟩ := Option.map_eq_some_iff.1 found
        exact keeps before there (tidy.effects _ _ there)
      · exact tidy.effects name live found }

structure Spare (e : Entity π) (id : Handle) : Prop where
  given : id < e.nextHandle
  unused : ∀ name live, e.effects.get? name = some live → ∀ s ∈ live.held, s.id ≠ id

theorem Tidy.spare (tidy : e.Tidy) : e.takeHandle.2.Spare e.nextHandle where
  given := Nat.lt_succ_self _
  unused name live found s member := Nat.ne_of_lt ((tidy.effects name live found).given s member)

theorem Tidy.pushStack [CustomTrigger π] (tidy : e.Tidy) {effect : EffectName} {s : Stack π}
    (spare : e.Spare s.id) : (e.pushStack effect s).Tidy := by
  apply Tidy.subscribe
  apply tidy.modifyEffect
  intro live found before
  refine ⟨before.filed, before.numbered, ?_, fun other member => ?_⟩
  · rw [List.map_append, List.nodup_append]
    refine ⟨before.distinct, List.pairwise_singleton _ _, ?_⟩
    intro a first b second
    obtain ⟨other, member, rfl⟩ := List.mem_map.1 first
    rw [List.map_singleton, List.mem_singleton] at second
    rw [second]
    exact spare.unused effect live found other member
  · rcases List.mem_append.1 member with earlier | last
    · exact before.given other earlier
    · rw [List.mem_singleton.1 last]
      exact spare.given

theorem Tidy.updateStack (tidy : e.Tidy) (effect : EffectName) {id : Handle} {s : Stack π}
    (same : s.id = id) : (e.updateStack effect id s).Tidy :=
  tidy.modifyEffect fun _ _ before =>
    before.sameHandles (map_key_modifyFirst (fun _ _ => same) _)

theorem stack?_updateStack {effect : EffectName} {id : Handle} {s s' : Stack π}
    (found : e.stack? effect id = some s) (same : s'.id = id) :
    (e.updateStack effect id s').stack? effect id = some s' := by
  obtain ⟨live, there, stack⟩ := Option.bind_eq_some_iff.1 found
  have keeps (x : Stack π) (_ : decide (x.id = id) = true) : decide (s'.id = id) = true :=
    decide_eq_true same
  rw [Entity.stack?, Entity.updateStack, get?_modifyEffect_self there, Option.bind_some,
    LiveEffect.stack?, LiveEffect.modifyStack, find?_modifyFirst keeps]
  change (live.stack? id).map _ = _
  rw [stack, Option.map_some]

theorem modifyStack_eq_self {effect : EffectName} {id : Handle} {s : Stack π}
    {change : Stack π → Stack π} (found : e.stack? effect id = some s) (same : change s = s) :
    (e.modifyEffect effect fun live => live.modifyStack id change) = e := by
  unfold modifyEffect
  rw [Table.modify_eq_self fun live lives => ?_]
  rw [stack?, lives, Option.bind_some] at found
  rw [LiveEffect.modifyStack, modifyFirst_eq_self found same]

theorem updateStack_self {effect : EffectName} {id : Handle} {s : Stack π}
    (found : e.stack? effect id = some s) : e.updateStack effect id s = e :=
  modifyStack_eq_self found rfl

theorem Tidy.setStacks (tidy : e.Tidy) {effect : EffectName} {held : List (Stack π)}
    (same : ∀ live, e.effects.get? effect = some live →
      held.map Stack.id = live.held.map Stack.id) : (e.setStacks effect held).Tidy :=
  tidy.modifyEffect fun live found before => before.sameHandles (same live found)

theorem Tidy.setCondition (tidy : e.Tidy) (owner : Owner) (c : Condition π) :
    (e.setCondition owner c).Tidy := by
  cases owner with
  | modifier stat id =>
      have lists (other : StatName) (m : Modifier π)
          (member : m ∈ (e.modifiers.modify stat id fun m => { m with duration := c }).get other) :
          ∃ before ∈ e.modifiers.get other, before.stat = m.stat ∧ before.id = m.id := by
        rw [ModifierLists.get_modify] at member
        split at member
        · rcases mem_modifyFirst member with before | ⟨x, found, rfl⟩
          · exact ⟨m, before, rfl, rfl⟩
          · exact ⟨x, List.mem_of_find?_eq_some found, rfl, rfl⟩
        · exact ⟨m, member, rfl, rfl⟩
      exact
        { tidy with
          filed := fun other m member => by
            obtain ⟨before, present, stats, _⟩ := lists other m member
            exact stats.symm.trans (tidy.filed other before present)
          given := fun other m member => by
            obtain ⟨before, present, _, ids⟩ := lists other m member
            have := tidy.given other before present
            rwa [ids] at this
          distinct := fun other => by
            change (((e.modifiers.modify stat id fun m => { m with duration := c }).get
              other).map Modifier.id).Nodup
            rw [ModifierLists.get_modify]
            split
            · rw [map_key_modifyFirst]
              · exact tidy.distinct other
              · exact fun _ there => there
            · exact tidy.distinct other }
  | stack effect id =>
      apply tidy.modifyEffect
      intro live _ before
      refine before.sameHandles (map_key_modifyFirst ?_ _)
      exact fun _ there => there
  | custom effect serial index =>
      apply tidy.modifyEffect
      intro live _ before
      dsimp only
      split
      · exact { before with }
      · exact before

/-! ### Taking stacks out -/

/-- With a stack that is there its place and its subscriptions go, and it waits in the pool. -/
theorem detachStack?_eq_some {e' : Entity π} {effect : EffectName} {id : Handle}
    (detached : e.detachStack? effect id = some e') :
    ∃ live s, e.effects.get? effect = some live ∧ live.stack? id = some s ∧
      e' = ((Entity.unsubscribe { e with
        effects := e.effects.insert effect
          { live with held := live.held.eraseP fun s => s.id = id } }
        (.stack effect id)).releaseStack s.detach) := by
  obtain ⟨⟨s, rest⟩, removed, rfl⟩ := Option.map_eq_some_iff.1 detached
  obtain ⟨live, there, found⟩ := Option.bind_eq_some_iff.1 removed
  unfold LiveEffect.removeStack? at found
  split at found
  · cases found
  · rename_i s' stack
    cases found
    exact ⟨live, s, there, stack, rfl⟩

theorem detachStack?_eq_none {effect : EffectName} {id : Handle} :
    e.detachStack? effect id = none ↔ e.stack? effect id = none := by
  unfold Entity.detachStack? Entity.stack?
  rw [Option.map_eq_none_iff]
  cases e.effects.get? effect with
  | none => simp only [Option.bind_none]
  | some live =>
    rw [Option.bind_some, Option.bind_some]
    unfold LiveEffect.removeStack?
    split
    · rename_i absent
      simp [absent]
    · rename_i s present
      simp [present]

theorem Tidy.effects_detachStack? (tidy : e.Tidy) {e' : Entity π} {effect : EffectName}
    {id : Handle} (detached : e.detachStack? effect id = some e') :
    e'.effects = e.effects.modify effect fun live => live.without [id] := by
  obtain ⟨live, s, there, stack, rfl⟩ := detachStack?_eq_some detached
  apply Table.ext_get?
  intro name
  change (e.effects.insert effect _).get? name = _
  rw [Table.get?_insert, Table.get?_modify]
  split
  · rename_i same
    subst same
    rw [there, Option.map_some, eraseP_eq_filter_of_nodup (tidy.effects _ _ there).distinct id]
    simp [LiveEffect.without]
  · rfl

theorem Tidy.detachStack? (tidy : e.Tidy) {e' : Entity π} {effect : EffectName} {id : Handle}
    (detached : e.detachStack? effect id = some e') : e'.Tidy := by
  have changed := tidy.effects_detachStack? detached
  obtain ⟨live, s, there, stack, rfl⟩ := detachStack?_eq_some detached
  apply Tidy.releaseStack
  apply Tidy.unsubscribe
  change e.effects.insert effect _ = _ at changed
  rw [changed]
  exact tidy.modifyEffect fun _ _ before => before.filter _

theorem without_eq_self {live : LiveEffect π} {ids : List Handle}
    (absent : ∀ s ∈ live.held, s.id ∉ ids) : live.without ids = live := by
  unfold LiveEffect.without
  rw [List.filter_eq_self.2 fun s member => by simpa using absent s member]

theorem without_without (live : LiveEffect π) (first second : List Handle) :
    (live.without first).without second = live.without (first ++ second) := by
  unfold LiveEffect.without
  simp only [List.filter_filter, List.mem_append, not_or]
  congr 1
  apply List.filter_congr
  intro s _
  simp [Bool.and_comm]

theorem Tidy.effects_detachStacks (tidy : e.Tidy) (effect : EffectName) (ids : List Handle) :
    (e.detachStacks effect ids).2.effects =
      e.effects.modify effect fun live => live.without ids := by
  apply Table.ext_get?
  intro name
  rw [Table.get?_modify]
  induction ids generalizing e with
  | nil =>
      rw [Entity.detachStacks]
      split
      · cases e.effects.get? name with
        | none => rfl
        | some live => rw [Option.map_some, without_eq_self fun _ _ => List.not_mem_nil]
      · rfl
  | cons id rest ih =>
      rw [Entity.detachStacks]
      split
      · rename_i absent
        rw [ih tidy]
        split
        · rename_i same
          subst same
          rw [detachStack?_eq_none, Entity.stack?] at absent
          cases there : e.effects.get? name with
          | none => rfl
          | some live =>
            rw [there, Option.bind_some] at absent
            have missing : live.without [id] = live := by
              apply without_eq_self
              intro s member present
              have different := List.find?_eq_none.1 absent s member
              simp only [List.mem_singleton] at present
              simp [present] at different
            rw [Option.map_some, Option.map_some, ← List.singleton_append, ← without_without,
              missing]
        · rfl
      · rename_i e' detached
        change (e'.detachStacks effect rest).2.effects.get? name = _
        rw [ih (tidy.detachStack? detached), tidy.effects_detachStack? detached, Table.get?_modify]
        split
        · cases e.effects.get? name with
          | none => rfl
          | some live =>
            rw [Option.map_some, Option.map_some, Option.map_some, without_without,
              List.singleton_append]
        · rfl

theorem detachStacks_of_zero {effect : EffectName} {ids : List Handle}
    (none : (e.detachStacks effect ids).1 = 0) : (e.detachStacks effect ids).2 = e := by
  induction ids with
  | nil => rfl
  | cons id rest ih =>
      rw [Entity.detachStacks] at none ⊢
      split
      · rename_i absent
        rw [absent] at none
        exact ih none
      · rename_i e' detached
        rw [detached] at none
        exact absurd none (Nat.succ_ne_zero _)

/-- What each stack that is taken out keeps, all of them keep. -/
theorem detachStacks_induct {motive : Entity π → Prop} (effect : EffectName)
    (each : ∀ e e' id, Entity.detachStack? e effect id = some e' → motive e → motive e')
    (ids : List Handle) (start : motive e) : motive (e.detachStacks effect ids).2 := by
  induction ids generalizing e with
  | nil => exact start
  | cons id rest ih =>
      rw [Entity.detachStacks]
      split
      · exact ih start
      · rename_i e' detached
        exact ih (each e e' id detached start)

theorem Tidy.detachStacks (tidy : e.Tidy) (effect : EffectName) (ids : List Handle) :
    (e.detachStacks effect ids).2.Tidy :=
  detachStacks_induct effect (fun _ _ _ detached before => before.detachStack? detached) ids tidy

/-! ### Effects -/

theorem Tidy.storeCount (tidy : e.Tidy) (effect : EffectName) (count : UInt32) (active : Bool) :
    (e.storeCount effect count active).Tidy :=
  tidy.modifyEffect fun _ _ before => { before with }

theorem Tidy.insertEffect (tidy : e.Tidy) (live : LiveEffect π)
    (inOrder : live.Tidy live.effect e.nextHandle) :
    Tidy { e with effects := e.effects.insert live.effect live } :=
  { tidy with
    effects := fun name other found => by
      change (e.effects.insert live.effect live).get? name = some other at found
      rw [Table.get?_insert] at found
      split at found
      · rename_i same
        cases found
        rw [same]
        exact inOrder
      · exact tidy.effects name other found }

theorem Tidy.addEffect [CustomTrigger π] (tidy : e.Tidy) {live : LiveEffect π}
    (inOrder : live.Tidy live.effect e.nextHandle) (armed : List (Condition π)) :
    (e.addEffect live armed).Tidy := by
  have inserted : Tidy { e with
      effects := e.effects.insert live.effect
        { live with conditions := live.conditions ++ armed } } :=
    tidy.insertEffect { live with conditions := live.conditions ++ armed }
      { inOrder with }
  exact List.foldlRecOn _ _ inserted fun _ before _ _ => before.subscribe _ _

/-- A live effect from the pool has no stacks yet. -/
theorem Tidy.addNewEffect [CustomTrigger π] (tidy : e.Tidy) (effect : EffectName)
    (armed : List (Condition π)) :
    (e.acquireEffect.2.addEffect { e.acquireEffect.1 with effect := effect } armed).Tidy := by
  have blank := tidy.acquireEffect_fst
  have held : e.acquireEffect.1.held = [] := congrArg LiveEffect.held blank
  have serial : e.acquireEffect.1.serial = e.nextHandle := congrArg LiveEffect.serial blank
  refine tidy.acquireEffect.addEffect ⟨rfl, ?_, ?_, fun s member => ?_⟩ armed
  · change e.acquireEffect.1.serial < e.nextHandle + 1
    rw [serial]
    exact Nat.lt_succ_self _
  · change (e.acquireEffect.1.held.map Stack.id).Nodup
    rw [held]
    exact .nil
  · change s ∈ e.acquireEffect.1.held at member
    rw [held] at member
    cases member

theorem Tidy.dropEffect (tidy : e.Tidy) (effect : EffectName) (live : LiveEffect π) :
    (e.dropEffect effect live).Tidy := by
  have erased : Tidy { e with effects := e.effects.erase effect } :=
    { tidy with
      effects := fun name other found => by
        change (e.effects.erase effect).get? name = some other at found
        rw [Table.get?_erase] at found
        split at found
        · cases found
        · exact tidy.effects name other found }
  have unheld := List.foldlRecOn live.held
    (fun e s => Entity.unsubscribe e (.stack effect s.id)) erased
    fun _ before _ _ => before.unsubscribe _
  have customs := List.foldlRecOn (List.range live.conditions.length)
    (fun e index => Entity.unsubscribe e (.custom effect live.serial index)) unheld
    fun _ before _ _ => before.unsubscribe _
  exact
    { customs with
      stackPool := customs.stackPool.releaseList (fun _ => rfl) _
      effectPool := customs.effectPool.release rfl }

end Entity

end StatusEffects
